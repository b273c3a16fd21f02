import Pans.Lib.Progress
import Pans.Threads.SpinLock

/-!
# The holder of the spin lock

A thread acquires the flag only where it is clear, so there is at most one holder. The holder alone touches the
counter, so what it has read is still there when it writes.
-/

namespace Pans

namespace SpinLock

/-! ## One step of a thread -/

variable {s s' : Shared} {l l' : Local} {op : Op} {tryLock : Bool}

/-- A step acquires the lock, works under it, releases it, or leaves what is shared as it is. -/
inductive Effect (s : Shared) (l : Local) : Shared → Local → Prop where
  | acquire : l.pc.holds = false → l.pc ≠ .start → s.mutex = false →
      Effect s l { s with mutex := true } { l with pc := .read }
  | quiet (pc : Pc) : l.pc.holds = false → pc.holds = false → l.rounds ≠ 0 ∨ l.pc ≠ .start →
      Effect s l s { l with pc }
  | read : l.pc = .read → Effect s l s { l with pc := .write (s.counter + 1) }
  | write (value : UInt64) : l.pc = .write value → Effect s l { s with counter := value } { l with pc := .unlock }
  | release : l.pc = .unlock → Effect s l { s with mutex := false } ⟨.start, l.rounds - 1⟩

theorem set_of_mutex (h : s.mutex = true) : { s with mutex := true } = s := by
  cases s
  cases h
  rfl

theorem effect_of_move (h : move s l tryLock = some (op, s', l')) : Effect s l s' l' := by
  obtain ⟨pc, rounds⟩ := l
  cases pc with
  | start =>
      simp only [move] at h
      split at h <;> cases h
      rename_i hrounds
      exact .quiet _ rfl (by cases tryLock <;> rfl) (.inl hrounds)
  | testAndSet =>
      cases h
      cases hmutex : s.mutex with
      | true =>
          rw [set_of_mutex hmutex]
          exact .quiet _ rfl rfl (.inr nofun)
      | false => exact .acquire rfl nofun hmutex
  | test =>
      cases h
      exact .quiet _ rfl (by cases s.mutex <;> rfl) (.inr nofun)
  | tryLock =>
      cases h
      cases hmutex : s.mutex with
      | true =>
          rw [set_of_mutex hmutex]
          exact .quiet _ rfl rfl (.inr nofun)
      | false => exact .acquire rfl nofun hmutex
  | read =>
      cases h
      exact .read rfl
  | write value =>
      cases h
      exact .write value rfl
  | unlock =>
      cases h
      exact .release rfl

theorem tryLock_failed (h : move s l tryLock = some (.tryLock false, s', l')) :
    s' = s ∧ l.pc = .tryLock ∧ l' = { l with pc := .start } := by
  obtain ⟨pc, rounds⟩ := l
  cases pc with
  | start =>
      simp only [move] at h
      split at h <;> cases h
  | tryLock =>
      simp only [move, Option.some.injEq, Prod.mk.injEq, Op.tryLock.injEq, Bool.not_eq_false'] at h
      obtain ⟨hmutex, rfl, rfl⟩ := h
      exact ⟨set_of_mutex hmutex, rfl, by rw [hmutex]; rfl⟩
  | _ => cases h

/-! ## The invariant -/

/-- The flag tells whether a thread holds the lock. No two do, and what the holder has read is the counter. -/
structure Valid {T : Type} (s : Process T) : Prop where
  mutex : s.shared.mutex = true ↔ ∃ t, (s.threads t).pc.holds = true
  unique : ∀ t u, (s.threads t).pc.holds = true → (s.threads u).pc.holds = true → t = u
  value : ∀ t value, (s.threads t).pc = .write value → value = s.shared.counter + 1
  rounds : ∀ t, (s.threads t).pc ≠ .start → (s.threads t).rounds ≠ 0

variable {T : Type} {s s' : Process T} {t : T} {op : Op}

theorem valid_initial (counter : UInt64) (rounds : T → Nat) : Valid (initial counter rounds) where
  mutex := ⟨nofun, nofun⟩
  unique := nofun
  value := nofun
  rounds _ h := absurd rfl h

theorem Valid.free (h : Valid s) (hmutex : s.shared.mutex = false) (u : T) : (s.threads u).pc.holds = false := by
  rw [Bool.eq_false_iff]
  intro hu
  have := h.mutex.mpr ⟨u, hu⟩
  rw [hmutex] at this
  cases this

theorem Valid.rounds_step (h : Valid s) (hothers : ∀ u, u ≠ t → s'.threads u = s.threads u)
    (hself : (s'.threads t).pc ≠ .start → (s'.threads t).rounds ≠ 0) (u : T) :
    (s'.threads u).pc ≠ .start → (s'.threads u).rounds ≠ 0 :=
  Interleaving.forall_of_others (P := fun _ l => l.pc ≠ .start → l.rounds ≠ 0) hothers hself (fun u _ => h.rounds u) u

/-- A step of a thread that goes on holding the lock, or goes on without it. -/
theorem Valid.of_same_holders (h : Valid s) (hothers : ∀ u, u ≠ t → s'.threads u = s.threads u)
    (hmutex : s'.shared.mutex = s.shared.mutex) (hholds : (s'.threads t).pc.holds = (s.threads t).pc.holds)
    (hself : ∀ value, (s'.threads t).pc = .write value → value = s'.shared.counter + 1)
    (hrest : ∀ u, u ≠ t → ∀ value, (s.threads u).pc = .write value → value = s'.shared.counter + 1)
    (hrounds : (s'.threads t).pc ≠ .start → (s'.threads t).rounds ≠ 0) : Valid s' := by
  have hsame (u : T) : (s'.threads u).pc.holds = (s.threads u).pc.holds := by
    by_cases hu : u = t
    · rw [hu, hholds]
    · rw [hothers u hu]
  constructor
  · simp only [hmutex, hsame]
    exact h.mutex
  · intro u v
    simp only [hsame]
    exact h.unique u v
  · refine Interleaving.forall_of_others (P := fun _ l => ∀ v, l.pc = .write v → v = s'.shared.counter + 1) hothers ?_ ?_
    · exact hself
    · exact hrest
  · exact h.rounds_step hothers hrounds

theorem Valid.acquire (h : Valid s) (hothers : ∀ u, u ≠ t → s'.threads u = s.threads u)
    (hfree : s.shared.mutex = false) (hmutex : s'.shared.mutex = true) (hself : (s'.threads t).pc = .read)
    (hrounds : (s'.threads t).rounds ≠ 0) : Valid s' := by
  have holder (u : T) (hu : (s'.threads u).pc.holds = true) : u = t := by
    by_contra hne
    rw [hothers u hne, h.free hfree u] at hu
    cases hu
  constructor
  · exact ⟨fun _ => ⟨t, by rw [hself]; rfl⟩, fun _ => hmutex⟩
  · intro u v hu hv
    exact (holder u hu).trans (holder v hv).symm
  · intro u value hu
    obtain rfl := holder u (by rw [hu]; rfl)
    rw [hself] at hu
    cases hu
  · exact h.rounds_step hothers fun _ => hrounds

theorem Valid.release (h : Valid s) (hothers : ∀ u, u ≠ t → s'.threads u = s.threads u)
    (hunlock : (s.threads t).pc = .unlock) (hmutex : s'.shared.mutex = false) (hself : (s'.threads t).pc = .start) :
    Valid s' := by
  have hnone (u : T) : (s'.threads u).pc.holds = false := by
    refine Interleaving.forall_of_others (P := fun _ l => l.pc.holds = false) hothers (by rw [hself]; rfl)
      (fun u hu => ?_) u
    rw [Bool.eq_false_iff]
    intro hholds
    exact hu (h.unique u t hholds (by rw [hunlock]; rfl))
  constructor
  · simp [hmutex, hnone]
  · intro u v hu
    rw [hnone u] at hu
    cases hu
  · intro u value hu
    have := hnone u
    rw [hu] at this
    cases this
  · exact h.rounds_step hothers fun hne => absurd hself hne

theorem Valid.step (h : Valid s) (hstep : Step s (t, op) s') : Valid s' := by
  obtain ⟨⟨tryLock, hmove⟩, hothers⟩ := hstep
  have hothers : ∀ u, u ≠ t → s'.threads u = s.threads u := hothers
  have heffect : Effect s.shared (s.threads t) s'.shared (s'.threads t) := effect_of_move hmove
  generalize hshared : s'.shared = shared' at heffect
  generalize hself : s'.threads t = l' at heffect
  cases heffect with
  | acquire hfree hstart hmutex =>
      refine h.acquire hothers hmutex (by rw [hshared]) (by rw [hself]) ?_
      rw [hself]
      exact h.rounds t hstart
  | quiet pc hfree hpc hr =>
      refine h.of_same_holders hothers (by rw [hshared]) (by rw [hself, hfree]; exact hpc) ?_ ?_ ?_
      · intro value hwrite
        have hwrite : pc = .write value := by rwa [hself] at hwrite
        rw [hwrite] at hpc
        cases hpc
      · exact fun u _ => hshared ▸ h.value u
      · rw [hself]
        exact fun _ => hr.elim id (h.rounds t)
  | read hread =>
      refine h.of_same_holders hothers (by rw [hshared]) (by rw [hself, hread]; rfl) ?_ ?_ ?_
      · intro value hwrite
        rw [hself] at hwrite
        cases hwrite
        rw [hshared]
      · exact fun u _ => hshared ▸ h.value u
      · rw [hself]
        exact fun _ => h.rounds t (by rw [hread]; nofun)
  | write value hwrite =>
      refine h.of_same_holders hothers (by rw [hshared]) (by rw [hself, hwrite]; rfl) ?_ ?_ ?_
      · intro value' hwrite'
        rw [hself] at hwrite'
        cases hwrite'
      · -- Two writers would both hold the lock.
        intro u hu value' hwrite'
        exact absurd (h.unique u t (by rw [hwrite']; rfl) (by rw [hwrite]; rfl)) hu
      · rw [hself]
        exact fun _ => h.rounds t (by rw [hwrite]; nofun)
  | release hunlock => exact h.release hothers hunlock (by rw [hshared]) (by rw [hself])

theorem valid_of_run {history : List (T × Op)} {counter : UInt64} {rounds : T → Nat}
    (h : Run Step (· = initial counter rounds) history s) : Valid s := by
  refine h.invariant (I := fun _ s => Valid s) ?_ ?_
  · rintro s rfl
    exact valid_initial counter rounds
  · rintro history s ⟨t, op⟩ s' hvalid hstep
    exact hvalid.step hstep

/-! ## The rounds that have not been counted -/

/-- A thread that is about to unlock has counted its round. -/
def Local.pending (l : Local) : Nat := if l.pc = .unlock then l.rounds - 1 else l.rounds

/-- The holder that writes counts a round; any other step leaves the counter and what is pending as they are. -/
theorem Valid.counts (h : Valid s) (hstep : Step s (t, op) s') :
    s'.shared.counter = s.shared.counter ∧ (s'.threads t).pending = (s.threads t).pending ∨
      s'.shared.counter = s.shared.counter + 1 ∧ (s'.threads t).pending + 1 = (s.threads t).pending := by
  obtain ⟨⟨tryLock, hmove⟩, _⟩ := hstep
  have heffect := effect_of_move hmove
  generalize s'.shared = shared' at heffect ⊢
  generalize s'.threads t = l' at heffect ⊢
  cases heffect with
  | acquire hfree hstart hmutex =>
      have hpc : (s.threads t).pc ≠ .unlock := by
        intro hunlock
        rw [show (s.threads t).pc = .unlock from hunlock] at hfree
        cases hfree
      exact .inl ⟨rfl, (if_neg hpc).symm⟩
  | quiet pc hfree hpc hr =>
      have hunlock {pc : Pc} (hpc : pc.holds = false) : pc ≠ .unlock := by
        rintro rfl
        cases hpc
      exact .inl ⟨rfl, (if_neg (hunlock hpc)).trans (if_neg (hunlock hfree)).symm⟩
  | read hread => exact .inl ⟨rfl, by simp [Local.pending, show (s.threads t).pc = .read from hread]⟩
  | write value hwrite =>
      have hrounds : (s.threads t).rounds ≠ 0 := h.rounds t (by rw [show (s.threads t).pc = _ from hwrite]; nofun)
      refine .inr ⟨h.value t value hwrite, ?_⟩
      simp only [Local.pending, show (s.threads t).pc = _ from hwrite, reduceCtorEq, ↓reduceIte]
      exact Nat.sub_add_cancel (Nat.one_le_iff_ne_zero.mpr hrounds)
  | release hunlock => exact .inl ⟨rfl, by simp [Local.pending, show (s.threads t).pc = .unlock from hunlock]⟩

variable [Fintype T]

/-- The counter and what is pending add up to what they were at the start. -/
theorem counted_of_run {history : List (T × Op)} {counter : UInt64} {rounds : T → Nat}
    (h : Run Step (· = initial counter rounds) history s) :
    s.shared.counter + UInt64.ofNat (∑ t, (s.threads t).pending) = counter + UInt64.ofNat (∑ t, rounds t) := by
  induction h with
  | start h =>
      subst h
      rfl
  | @extend history s e s' hrun hstep ih =>
      have hsum := Interleaving.sum_threads hstep Local.pending
      rw [← ih]
      rcases (valid_of_run hrun).counts hstep with ⟨hcounter, hpending⟩ | ⟨hcounter, hpending⟩
      · rw [hpending] at hsum
        rw [hcounter, Nat.add_right_cancel hsum]
      · have hsum : ∑ t, (s.threads t).pending = ∑ t, (s'.threads t).pending + 1 := by omega
        rw [hcounter, hsum, UInt64.ofNat_add, UInt64.add_assoc, UInt64.add_comm 1]
        rfl

theorem counted_of_finished {history : List (T × Op)} {counter : UInt64} {rounds : T → Nat}
    (h : Run Step (· = initial counter rounds) history s) (hfinished : ∀ t, (s.threads t).Finished) :
    s.shared.counter = counter + UInt64.ofNat (∑ t, rounds t) := by
  have hpending : ∑ t, (s.threads t).pending = 0 := by
    refine Finset.sum_eq_zero fun t _ => ?_
    obtain ⟨hpc, hrounds⟩ := hfinished t
    simp [Local.pending, hpc, hrounds]
  have hcounted := counted_of_run h
  rw [hpending] at hcounted
  exact (UInt64.add_zero _).symm.trans hcounted

/-! ## The way to the end -/

/-- An upper bound for the steps that a thread takes until it has finished, if it never finds the flag set. -/
def Local.work (l : Local) : Nat :=
  match l.pc with
  | .start => l.rounds * 8
  | .test => (l.rounds - 1) * 8 + 5
  | .testAndSet | .tryLock => (l.rounds - 1) * 8 + 4
  | .read => (l.rounds - 1) * 8 + 3
  | .write _ => (l.rounds - 1) * 8 + 2
  | .unlock => (l.rounds - 1) * 8 + 1

omit [Fintype T] in
/-- While no thread holds the lock, each of them goes on; otherwise the holder does. -/
theorem Valid.exists_advances (h : Valid s) (hunfinished : ¬∀ t, (s.threads t).Finished) :
    ∃ t op s', Step s (t, op) s' ∧ (s'.threads t).work < (s.threads t).work := by
  classical
  have hadvances {t : T} {op : Op} {shared : Shared} {l l' : Local} (hl : s.threads t = l)
      (hmove : move s.shared l false = some (op, shared, l')) (hwork : l'.work < l.work) :
      ∃ t op s', Step s (t, op) s' ∧ (s'.threads t).work < (s.threads t).work := by
    subst hl
    refine ⟨t, op, ⟨shared, Function.update s.threads t l'⟩, ⟨?_, fun u hu => Function.update_of_ne hu _ _⟩, ?_⟩
    · have hown : Move t s.shared (s.threads t) op shared l' := ⟨false, hmove⟩
      rwa [← Function.update_self t l' s.threads] at hown
    · rwa [← Function.update_self t l' s.threads] at hwork
  by_cases hholder : ∃ t, (s.threads t).pc.holds = true
  · obtain ⟨t, ht⟩ := hholder
    generalize hl : s.threads t = l at ht
    obtain ⟨pc, rounds⟩ := l
    cases pc with
    | read => exact hadvances hl rfl (Nat.lt_succ_self _)
    | write value => exact hadvances hl rfl (Nat.lt_succ_self _)
    | unlock => exact hadvances hl rfl (Nat.lt_succ_self _)
    | _ => cases ht
  · have hmutex : s.shared.mutex = false := Bool.eq_false_iff.mpr fun hlocked => hholder (h.mutex.mp hlocked)
    obtain ⟨t, ht⟩ := not_forall.mp hunfinished
    have hfree := h.free hmutex t
    generalize hl : s.threads t = l at ht hfree
    obtain ⟨pc, rounds⟩ := l
    cases pc with
    | start =>
        have hrounds : rounds ≠ 0 := fun hrounds => ht ⟨rfl, hrounds⟩
        refine hadvances hl (if_neg hrounds) ?_
        simp only [Local.work, Bool.false_eq_true, ↓reduceIte]
        omega
    | test =>
        refine hadvances hl rfl ?_
        simp only [Local.work, hmutex, Bool.false_eq_true, ↓reduceIte]
        omega
    | testAndSet | tryLock =>
        refine hadvances hl rfl ?_
        simp only [Local.work, hmutex, Bool.false_eq_true, ↓reduceIte]
        omega
    | _ => cases hfree

/-- Wherever a run has come to, it can be brought to its end. -/
theorem finishes {history : List (T × Op)} {counter : UInt64} {rounds : T → Nat}
    (h : Run Step (· = initial counter rounds) history s) :
    ∃ later s', Run Step (· = s) later s' ∧ ∀ t, (s'.threads t).Finished := by
  refine Interleaving.reaches Local.work (fun _ _ _ hstep => hstep) (fun history s h hunfinished => ?_) h
  obtain ⟨t, op, s', hstep, hwork⟩ := (valid_of_run h).exists_advances hunfinished
  exact ⟨(t, op), s', hstep, hwork⟩

end SpinLock

end Pans
