import Pans.Lib.Progress
import Pans.Threads.AtomicWaitLock
import Pans.Threads.Lemmas.SpinLock

/-!
# The sleepers of the lock

But for sleeping and waking up, the lock is a spin lock. While it is free and somebody sleeps, the thread that
released it last has yet to notify, or somebody in `lock` is awake.
-/

namespace Pans

namespace AtomicWaitLock

variable {T : Type}

/-! ## The spin lock behind it -/

def Shared.spin (s : Shared T) : SpinLock.Shared := ⟨s.mutex, s.counter⟩

/-- A thread that sleeps, or is about to, spins. A thread that notifies has unlocked. -/
def Local.spin (l : Local) : SpinLock.Local :=
  match l.pc with
  | .start => ⟨.start, l.rounds⟩
  | .compareExchange | .wait | .blocked => ⟨.testAndSet, l.rounds⟩
  | .tryLock => ⟨.tryLock, l.rounds⟩
  | .read => ⟨.read, l.rounds⟩
  | .write value => ⟨.write value, l.rounds⟩
  | .store => ⟨.unlock, l.rounds⟩
  | .notify _ => ⟨.start, l.rounds - 1⟩

theorem Local.spin_holds (l : Local) : l.spin.pc.holds = l.pc.holds := by
  obtain ⟨pc, rounds⟩ := l
  cases pc <;> rfl

/-! ## One step of a thread -/

variable [DecidableEq T]

/-- What a step of a thread does to the sleepers and to the mutex. -/
inductive Effect (t : T) (s : Shared T) (l : Local) : Shared T → Local → Prop where
  | tries (pc : Pc) : l.pc = .start ∨ l.pc = .tryLock → pc = .start ∨ pc = .tryLock → Effect t s l s { l with pc }
  | contends (pc : Pc) : l.pc.holds = false → (∀ epoch, l.pc ≠ .notify epoch) → (l.pc = .blocked → ¬s.Asleep t) →
      pc = .compareExchange ∨ pc = .wait → Effect t s l s { l with pc }
  | startles : l.pc = .blocked → Effect t s l (s.wake [t]) { l with pc := .wait }
  | acquires : s.mutex = false → l.pc = .compareExchange ∨ l.pc = .tryLock →
      Effect t s l { s with mutex := true } { l with pc := .read }
  | sleeps : s.mutex = true → l.pc = .wait →
      Effect t s l { s with waiters := ⟨t, s.releases⟩ :: s.waiters } { l with pc := .blocked }
  | works (counter : UInt64) (pc : Pc) : l.pc.holds = true → pc.holds = true →
      Effect t s l { s with counter } { l with pc }
  | releases : l.pc = .store →
      Effect t s l { s with mutex := false, releases := s.releases + 1 } { l with pc := .notify (s.releases + 1) }
  | notifies (epoch : Nat) (woken : List T) : l.pc = .notify epoch → Wakes s.waiters epoch woken →
      Effect t s l (s.wake woken) ⟨.start, l.rounds - 1⟩

variable {s s' : Shared T} {l l' : Local} {t : T} {op : Op T} {choice : Choice T}

omit [DecidableEq T] in
theorem set_of_mutex (h : s.mutex = true) : { s with mutex := true } = s := by
  cases s
  cases h
  rfl

theorem effect_of_move (h : move t s l choice = some (op, s', l')) : Effect t s l s' l' := by
  obtain ⟨pc, rounds⟩ := l
  cases pc with
  | start =>
      simp only [move] at h
      split at h <;> cases h
      cases choice.tryLock with
      | true => exact .tries _ (.inl rfl) (.inr rfl)
      | false => exact .contends _ rfl nofun nofun (.inl rfl)
  | compareExchange =>
      simp only [move] at h
      split at h <;> cases h
      · exact .contends _ rfl nofun nofun (.inr rfl)
      · rename_i hmutex
        exact .acquires (by simp_all) (.inl rfl)
  | wait =>
      simp only [move] at h
      split at h <;> cases h
      · rename_i hmutex
        exact .sleeps hmutex rfl
      · exact .contends _ rfl nofun nofun (.inl rfl)
  | blocked =>
      simp only [move] at h
      split at h
      · split at h <;> cases h
        exact .startles rfl
      · rename_i hasleep
        cases h
        exact .contends _ rfl nofun (fun _ => hasleep) (.inr rfl)
  | tryLock =>
      cases h
      cases hmutex : s.mutex with
      | true =>
          rw [set_of_mutex hmutex]
          exact .tries _ (.inr rfl) (.inl rfl)
      | false => exact .acquires hmutex (.inr rfl)
  | read =>
      cases h
      exact .works s.counter _ rfl rfl
  | write value =>
      cases h
      exact .works value _ rfl rfl
  | store =>
      cases h
      exact .releases rfl
  | notify epoch =>
      simp only [move] at h
      split at h <;> cases h
      rename_i hwakes
      exact .notifies epoch _ rfl hwakes

theorem tryLock_failed (h : move t s l choice = some (.tryLock false, s', l')) :
    s' = s ∧ l' = { l with pc := .start } := by
  obtain ⟨pc, rounds⟩ := l
  cases pc with
  | tryLock =>
      simp only [move, Option.some.injEq, Prod.mk.injEq, Op.tryLock.injEq, Bool.not_eq_false'] at h
      obtain ⟨hmutex, rfl, rfl⟩ := h
      exact ⟨set_of_mutex hmutex, by rw [hmutex]; rfl⟩
  | start | compareExchange | wait | notify =>
      simp only [move] at h
      split at h <;> cases h
  | blocked =>
      simp only [move] at h
      split at h
      · split at h <;> cases h
      · cases h
  | _ => cases h

/-- A step is one of the spin lock, or one that the spin lock does not take. -/
theorem spin_of_move (h : move t s l choice = some (op, s', l')) :
    s'.spin = s.spin ∧ l'.spin = l.spin ∨ ∃ op', SpinLock.Move t s.spin l.spin op' s'.spin l'.spin := by
  obtain ⟨pc, rounds⟩ := l
  cases pc with
  | start =>
      simp only [move] at h
      split at h <;> cases h
      rename_i hrounds
      refine .inr ⟨.call choice.tryLock, choice.tryLock, ?_⟩
      cases choice.tryLock <;> simp [SpinLock.move, Local.spin, hrounds]
  | compareExchange =>
      simp only [move] at h
      split at h <;> cases h
      · exact .inl ⟨rfl, rfl⟩
      · rename_i hmutex
        have hmutex : s.mutex = false := by simp_all
        exact .inr ⟨.testAndSet false, false, by simp [SpinLock.move, Local.spin, Shared.spin, hmutex]⟩
  | wait =>
      simp only [move] at h
      split at h <;> cases h <;> exact .inl ⟨rfl, rfl⟩
  | blocked =>
      simp only [move] at h
      split at h
      · split at h <;> cases h
        exact .inl ⟨rfl, rfl⟩
      · cases h
        exact .inl ⟨rfl, rfl⟩
  | tryLock =>
      cases h
      refine .inr ⟨.tryLock !s.mutex, false, ?_⟩
      cases hmutex : s.mutex <;> simp [SpinLock.move, Local.spin, Shared.spin, hmutex]
  | read =>
      cases h
      exact .inr ⟨.read s.counter, false, rfl⟩
  | write value =>
      cases h
      exact .inr ⟨.write value, false, rfl⟩
  | store =>
      cases h
      exact .inr ⟨.unlock, false, rfl⟩
  | notify epoch =>
      simp only [move] at h
      split at h <;> cases h
      exact .inl ⟨rfl, rfl⟩

/-! ## A run -/

def spin (s : Process T) : SpinLock.Process T := s.map Shared.spin Local.spin

theorem spin_of_run {history : List (T × Op T)} {s : Process T} {counter : UInt64} {rounds : T → Nat}
    (h : Run Step (· = initial counter rounds) history s) :
    ∃ history', Run SpinLock.Step (· = SpinLock.initial counter rounds) history' (spin s) := by
  refine h.simulate ?_ fun s label s' hstep => Interleaving.step_map ?_ hstep
  · rintro s rfl
    rfl
  · rintro t s l op s' l' ⟨choice, hmove⟩
    exact spin_of_move hmove

theorem holder_locks {history : List (T × Op T)} {s : Process T} {counter : UInt64} {rounds : T → Nat}
    (h : Run Step (· = initial counter rounds) history s) {t : T} (ht : (s.threads t).pc.holds = true) :
    s.shared.mutex = true := by
  obtain ⟨_, hspin⟩ := spin_of_run h
  exact (SpinLock.valid_of_run hspin).mutex.mpr ⟨t, (Local.spin_holds _).trans ht⟩

theorem holder_of_locked {history : List (T × Op T)} {s : Process T} {counter : UInt64} {rounds : T → Nat}
    (h : Run Step (· = initial counter rounds) history s) (hmutex : s.shared.mutex = true) :
    ∃ t, (s.threads t).pc.holds = true := by
  obtain ⟨_, hspin⟩ := spin_of_run h
  obtain ⟨t, ht⟩ := (SpinLock.valid_of_run hspin).mutex.mp hmutex
  exact ⟨t, (Local.spin_holds _).symm.trans ht⟩

/-! ## Nobody sleeps unattended -/

/-- Somebody has yet to notify those who sleep, or will take the lock. -/
def Attended (s : Process T) : Prop :=
  (∃ t, (s.threads t).pc = .notify s.shared.releases) ∨ ∃ t, Contends s.shared t (s.threads t)

structure Valid (s : Process T) : Prop where
  asleep : ∀ t, s.shared.Asleep t → (s.threads t).pc = .blocked
  epochs : ∀ waiter ∈ s.shared.waiters,
    waiter.epoch < s.shared.releases ∨ s.shared.mutex = true ∧ waiter.epoch = s.shared.releases
  attended : s.shared.mutex = false → s.shared.waiters ≠ [] → Attended s

omit [DecidableEq T] in
theorem valid_initial (counter : UInt64) (rounds : T → Nat) : Valid (initial counter rounds) where
  asleep _ h := absurd h List.not_mem_nil
  epochs _ h := absurd h List.not_mem_nil
  attended _ h := absurd rfl h

theorem asleep_wake {woken : List T} {u : T} : (s.wake woken).Asleep u ↔ s.Asleep u ∧ u ∉ woken := by
  simp only [Shared.Asleep, Shared.wake, List.mem_map, List.mem_filter, decide_eq_true_eq]
  constructor
  · rintro ⟨waiter, ⟨hmem, hwoken⟩, rfl⟩
    exact ⟨⟨waiter, hmem, rfl⟩, hwoken⟩
  · rintro ⟨⟨waiter, hmem, rfl⟩, hwoken⟩
    exact ⟨waiter, ⟨hmem, hwoken⟩, rfl⟩

theorem mem_wake {woken : List T} {waiter : Waiter T} (h : waiter ∈ (s.wake woken).waiters) : waiter ∈ s.waiters :=
  (List.mem_filter.mp h).1

theorem waiters_of_wake {woken : List T} (h : (s.wake woken).waiters ≠ []) : s.waiters ≠ [] := by
  obtain ⟨waiter, hwaiter⟩ := List.exists_mem_of_ne_nil _ h
  exact List.ne_nil_of_mem (mem_wake hwaiter)

omit [DecidableEq T] in
theorem Contends.mono {u : T} (h : Contends s u l) (hasleep : s'.Asleep u → s.Asleep u) : Contends s' u l :=
  h.imp_right fun h => h.imp_right fun h => h.imp_right fun h => mt hasleep h

variable {S S' : Process T}

omit [DecidableEq T] in
theorem Attended.keep (h : Attended S) (hothers : ∀ u, u ≠ t → S'.threads u = S.threads u)
    (hreleases : S'.shared.releases = S.shared.releases) (hasleep : ∀ u, S'.shared.Asleep u → S.shared.Asleep u)
    (hself : (S.threads t).pc ≠ .notify S.shared.releases) (hcontends : ¬Contends S.shared t (S.threads t)) :
    Attended S' := by
  rcases h with ⟨u, hu⟩ | ⟨u, hu⟩
  · refine .inl ⟨u, ?_⟩
    rw [hothers u fun heq => hself (heq ▸ hu), hreleases]
    exact hu
  · refine .inr ⟨u, ?_⟩
    rw [hothers u fun heq => hcontends (heq ▸ hu)]
    exact hu.mono (hasleep u)

theorem Valid.asleep_step (h : Valid S) (hothers : ∀ u, u ≠ t → S'.threads u = S.threads u)
    (hrest : ∀ u, u ≠ t → S'.shared.Asleep u → S.shared.Asleep u)
    (hself : S'.shared.Asleep t → (S'.threads t).pc = .blocked) (u : T) (hu : S'.shared.Asleep u) :
    (S'.threads u).pc = .blocked := by
  by_cases htu : u = t
  · subst htu
    exact hself hu
  · rw [hothers u htu]
    exact h.asleep u (hrest u htu hu)

theorem Valid.step (h : Valid S) (hholder : (S.threads t).pc.holds = true → S.shared.mutex = true)
    (hothers : ∀ u, u ≠ t → S'.threads u = S.threads u)
    (heffect : Effect t S.shared (S.threads t) S'.shared (S'.threads t)) : Valid S' := by
  have hawake {pc : Pc} (hpc : (S.threads t).pc = pc) (hne : pc ≠ .blocked) : ¬S.shared.Asleep t :=
    fun hasleep => hne (hpc.symm.trans (h.asleep t hasleep))
  generalize hshared : S'.shared = shared' at heffect
  generalize hself : S'.threads t = l' at heffect
  cases heffect with
  | tries pc hfrom hto =>
      have hnot : ¬S.shared.Asleep t := hfrom.elim (hawake · nofun) (hawake · nofun)
      refine ⟨h.asleep_step hothers (by rw [hshared]; exact fun _ _ => id) (by rw [hshared]; exact (absurd · hnot)),
        by rw [hshared]; exact h.epochs, fun hmutex hwaiters => ?_⟩
      rw [hshared] at hmutex hwaiters
      refine (h.attended hmutex hwaiters).keep hothers (by rw [hshared]) (by rw [hshared]; exact fun _ => id) ?_ ?_
      · rcases hfrom with hpc | hpc <;> rw [hpc] <;> nofun
      · rcases hfrom with hpc | hpc <;> simp [Contends, hpc]
  | contends pc _ _ hblocked hto =>
      have hnot : ¬S.shared.Asleep t := fun hasleep => hblocked (h.asleep t hasleep) hasleep
      refine ⟨h.asleep_step hothers (by rw [hshared]; exact fun _ _ => id) (by rw [hshared]; exact (absurd · hnot)),
        by rw [hshared]; exact h.epochs, fun _ _ => .inr ⟨t, ?_⟩⟩
      rw [hself]
      exact hto.imp_right .inl
  | startles _ =>
      refine ⟨h.asleep_step hothers ?_ ?_, ?_, fun _ _ => .inr ⟨t, ?_⟩⟩
      · rw [hshared]
        exact fun u _ hu => (asleep_wake.mp hu).1
      · rw [hshared]
        exact fun hasleep => absurd (List.mem_singleton_self t) (asleep_wake.mp hasleep).2
      · rw [hshared]
        exact fun waiter hwaiter => h.epochs waiter (mem_wake hwaiter)
      · rw [hself]
        exact .inr (.inl rfl)
  | acquires hmutex hfrom =>
      have hnot : ¬S.shared.Asleep t := hfrom.elim (hawake · nofun) (hawake · nofun)
      refine ⟨h.asleep_step hothers (by rw [hshared]; exact fun _ _ => id) (by rw [hshared]; exact (absurd · hnot)),
        ?_, ?_⟩
      · rw [hshared]
        exact fun waiter hwaiter => .inl ((h.epochs waiter hwaiter).resolve_right (by simp [hmutex]))
      · rw [hshared]
        nofun
  | sleeps hmutex hpc =>
      refine ⟨h.asleep_step hothers ?_ (fun _ => by rw [hself]), ?_, ?_⟩
      · rw [hshared]
        exact fun u hu hasleep => (List.mem_cons.mp hasleep).resolve_left hu
      · rw [hshared]
        intro waiter hwaiter
        rcases List.mem_cons.mp hwaiter with rfl | hwaiter
        · exact .inr ⟨hmutex, rfl⟩
        · exact h.epochs waiter hwaiter
      · rw [hshared]
        intro hfree
        rw [hmutex] at hfree
        cases hfree
  | works counter pc hholds _ =>
      have hmutex := hholder hholds
      have hnot : ¬S.shared.Asleep t := hawake rfl fun hpc => by rw [hpc] at hholds; cases hholds
      refine ⟨h.asleep_step hothers (by rw [hshared]; exact fun _ _ => id) (by rw [hshared]; exact (absurd · hnot)),
        by rw [hshared]; exact h.epochs, ?_⟩
      rw [hshared]
      intro hfree
      rw [hmutex] at hfree
      cases hfree
  | releases hpc =>
      have hnot : ¬S.shared.Asleep t := hawake hpc nofun
      refine ⟨h.asleep_step hothers (by rw [hshared]; exact fun _ _ => id) (by rw [hshared]; exact (absurd · hnot)),
        ?_, fun _ _ => .inl ⟨t, by rw [hself, hshared]⟩⟩
      rw [hshared]
      intro waiter hwaiter
      have := h.epochs waiter hwaiter
      exact .inl (by show waiter.epoch < S.shared.releases + 1; omega)
  | notifies epoch woken hpc hwakes =>
      have hshrinks (u : T) (hu : S'.shared.Asleep u) : S.shared.Asleep u := by
        rw [hshared] at hu
        exact (asleep_wake.mp hu).1
      have hnot : ¬S.shared.Asleep t := hawake hpc nofun
      refine ⟨h.asleep_step hothers (fun u _ => hshrinks u) (fun hasleep => absurd (hshrinks t hasleep) hnot), ?_, ?_⟩
      · rw [hshared]
        exact fun waiter hwaiter => h.epochs waiter (mem_wake hwaiter)
      intro hmutex hwaiters
      rw [hshared] at hmutex hwaiters
      have hwaiters := waiters_of_wake hwaiters
      by_cases hlast : epoch = S.shared.releases
      · -- Everybody who sleeps went to sleep before the mutex was cleared, so the notification is for them.
        obtain ⟨first, hfirst⟩ := List.exists_mem_of_ne_nil _ hwaiters
        have heligible : first.Eligible epoch := by
          rw [hlast]
          exact (h.epochs first hfirst).resolve_right fun hlocked => by
            rw [show S.shared.mutex = false from hmutex] at hlocked
            cases hlocked.1
        obtain ⟨waiter, hwaiter, _, hwoken⟩ := hwakes ⟨first, hfirst, heligible⟩
        have hblocked := h.asleep waiter.thread (List.mem_map_of_mem hwaiter)
        have hother : waiter.thread ≠ t := by
          intro heq
          rw [heq, hpc] at hblocked
          cases hblocked
        refine .inr ⟨waiter.thread, ?_⟩
        rw [hothers _ hother, hshared]
        exact .inr (.inr ⟨hblocked, fun hasleep => (asleep_wake.mp hasleep).2 hwoken⟩)
      · refine (h.attended hmutex hwaiters).keep hothers (by rw [hshared]; rfl) hshrinks ?_ ?_
        · rw [hpc]
          exact fun heq => hlast (Pc.notify.inj heq)
        · simp [Contends, hpc]

theorem valid_of_run {history : List (T × Op T)} {counter : UInt64} {rounds : T → Nat}
    (h : Run Step (· = initial counter rounds) history S) : Valid S := by
  induction h with
  | start h =>
      subst h
      exact valid_initial counter rounds
  | @extend history s e s' hrun hstep ih =>
      obtain ⟨choice, hmove⟩ := hstep.own
      exact ih.step (holder_locks hrun) hstep.others (effect_of_move hmove)

/-! ## The way to the end -/

/-- An upper bound for the steps that a thread takes until it has finished, if it is never kept waiting. -/
def Local.work (l : Local) : Nat :=
  match l.pc with
  | .start => l.rounds * 12
  | .compareExchange | .tryLock => (l.rounds - 1) * 12 + 8
  | .wait => (l.rounds - 1) * 12 + 9
  | .blocked => (l.rounds - 1) * 12 + 10
  | .read => (l.rounds - 1) * 12 + 7
  | .write _ => (l.rounds - 1) * 12 + 6
  | .store => (l.rounds - 1) * 12 + 5
  | .notify _ => (l.rounds - 1) * 12 + 4

variable {policy : List (Waiter T) → Nat → List T} {history : List (T × Op T)} {counter : UInt64} {rounds : T → Nat}

/-- A sound step of one thread, with less work left for that thread. -/
def Advances (policy : List (Waiter T) → Nat → List T) (S : Process T) (t : T) : Prop :=
  ∃ op S', Sound policy S (t, op) S' ∧ (S'.threads t).work < (S.threads t).work

theorem advances_of_move (choice : Choice T) (op : Op T)
    (hmove : move t S.shared (S.threads t) choice = some (op, s', l'))
    (hwork : l'.work < (S.threads t).work) (hwakeUp : op ≠ .wakeUp true)
    (hexchange : op = .compareExchange false → S.shared.mutex = true)
    (hnotify : ∀ epoch, (S.threads t).pc = .notify epoch → op = .notifyOne (policy S.shared.waiters epoch)) :
    Advances policy S t := by
  refine ⟨op, ⟨s', Function.update S.threads t l'⟩, ⟨⟨?_, fun u hu => Function.update_of_ne hu _ _⟩, hwakeUp,
    hexchange, hnotify⟩, ?_⟩
  · have hown : Move t S.shared (S.threads t) op s' l' := ⟨choice, hmove⟩
    rwa [← Function.update_self t l' S.threads] at hown
  · rwa [← Function.update_self t l' S.threads] at hwork

theorem holder_advances (h : (S.threads t).pc.holds = true) : Advances policy S t := by
  generalize hl : S.threads t = l at h
  obtain ⟨pc, rounds⟩ := l
  have hadvances (op : Op T) {s' : Shared T} {l' : Local} (hmove : move t S.shared ⟨pc, rounds⟩ ⟨false, false, []⟩ =
      some (op, s', l')) (hwork : l'.work < (⟨pc, rounds⟩ : Local).work) (hwakeUp : op ≠ .wakeUp true)
      (hexchange : op ≠ .compareExchange false) : Advances policy S t := by
    refine advances_of_move _ op (hl ▸ hmove) (hl ▸ hwork) hwakeUp (fun heq => absurd heq hexchange) ?_
    rw [hl]
    rintro epoch rfl
    cases h
  cases pc with
  | read => exact hadvances (.read S.shared.counter) rfl (Nat.lt_succ_self _) nofun nofun
  | write value => exact hadvances (.write value) rfl (Nat.lt_succ_self _) nofun nofun
  | store => exact hadvances .store rfl (Nat.lt_succ_self _) nofun nofun
  | _ => cases h

theorem notifier_advances (hpolicy : ∀ waiters epoch, Wakes waiters epoch (policy waiters epoch)) {epoch : Nat}
    (h : (S.threads t).pc = .notify epoch) : Advances policy S t := by
  generalize hl : S.threads t = l at h
  obtain ⟨pc, rounds⟩ := l
  cases h
  refine advances_of_move ⟨false, false, policy S.shared.waiters epoch⟩ (.notifyOne _)
    (by rw [hl]; exact if_pos (hpolicy _ _)) ?_ nofun nofun ?_
  · rw [hl]
    simp only [Local.work]
    omega
  · rw [hl]
    rintro epoch' heq
    cases heq
    rfl

/-- While the mutex is free, who is awake in `lock` comes nearer to taking it. -/
theorem contender_advances (hmutex : S.shared.mutex = false) (h : Contends S.shared t (S.threads t)) :
    Advances policy S t := by
  generalize hl : S.threads t = l at h
  obtain ⟨pc, rounds⟩ := l
  rcases h with hpc | hpc | ⟨hpc, hawake⟩
  · cases hpc
    refine advances_of_move ⟨false, false, []⟩ (.compareExchange true)
      (by rw [hl, move, hmutex]; rfl) ?_ nofun nofun (by rw [hl]; nofun)
    rw [hl]
    simp only [Local.work]
    omega
  · cases hpc
    refine advances_of_move ⟨false, false, []⟩ (.wait false)
      (by rw [hl, move, hmutex]; rfl) ?_ nofun nofun (by rw [hl]; nofun)
    rw [hl]
    simp only [Local.work]
    omega
  · cases hpc
    refine advances_of_move ⟨false, false, []⟩ (.wakeUp false)
      (by rw [hl]; exact if_neg hawake) ?_ (by simp) nofun (by rw [hl]; nofun)
    rw [hl]
    simp only [Local.work]
    omega

/-- A thread that is outside of `lock` and of the critical section, with rounds to go. -/
theorem newcomer_advances (hmutex : S.shared.mutex = false)
    (h : (S.threads t).pc = .tryLock ∨ (S.threads t).pc = .start ∧ (S.threads t).rounds ≠ 0) :
    Advances policy S t := by
  generalize hl : S.threads t = l at h
  obtain ⟨pc, rounds⟩ := l
  rcases h with hpc | ⟨hpc, hrounds⟩
  · cases hpc
    refine advances_of_move ⟨false, false, []⟩ (.tryLock true)
      (by rw [hl, move, hmutex]; rfl) ?_ nofun nofun (by rw [hl]; nofun)
    rw [hl]
    simp only [Local.work, Bool.false_eq_true, ↓reduceIte]
    omega
  · cases hpc
    have hrounds : rounds ≠ 0 := hrounds
    refine advances_of_move ⟨false, false, []⟩ (.call false)
      (by rw [hl]; exact if_neg hrounds) ?_ nofun nofun (by rw [hl]; nofun)
    rw [hl]
    simp only [Local.work, Bool.false_eq_true, ↓reduceIte]
    omega

theorem exists_advances (hpolicy : ∀ waiters epoch, Wakes waiters epoch (policy waiters epoch))
    (h : Run Step (· = initial counter rounds) history S) (hunfinished : ¬∀ t, (S.threads t).Finished) :
    ∃ t, Advances policy S t := by
  by_cases hholder : ∃ t, (S.threads t).pc.holds = true
  · exact hholder.imp fun t => holder_advances
  by_cases hnotifier : ∃ t epoch, (S.threads t).pc = .notify epoch
  · obtain ⟨t, epoch, ht⟩ := hnotifier
    exact ⟨t, notifier_advances hpolicy ht⟩
  have hmutex : S.shared.mutex = false := Bool.eq_false_iff.mpr fun hlocked => hholder (holder_of_locked h hlocked)
  by_cases hcontender : ∃ t, Contends S.shared t (S.threads t)
  · exact hcontender.imp fun t => contender_advances hmutex
  have hvalid := valid_of_run h
  have hnobody (t : T) : ¬S.shared.Asleep t := by
    intro hasleep
    obtain ⟨waiter, hwaiter, _⟩ := List.mem_map.mp hasleep
    rcases hvalid.attended hmutex (List.ne_nil_of_mem hwaiter) with ⟨u, hu⟩ | hcontends
    · exact hnotifier ⟨u, _, hu⟩
    · exact hcontender hcontends
  obtain ⟨t, ht⟩ := not_forall.mp hunfinished
  refine ⟨t, newcomer_advances hmutex ?_⟩
  cases hpc : (S.threads t).pc with
  | start => exact .inr ⟨rfl, fun hrounds => ht ⟨hpc, hrounds⟩⟩
  | tryLock => exact .inl rfl
  | compareExchange => exact absurd ⟨t, .inl hpc⟩ hcontender
  | wait => exact absurd ⟨t, .inr (.inl hpc)⟩ hcontender
  | blocked => exact absurd ⟨t, .inr (.inr ⟨hpc, hnobody t⟩)⟩ hcontender
  | notify epoch => exact absurd ⟨t, epoch, hpc⟩ hnotifier
  | read | write | store => exact absurd ⟨t, by rw [hpc]; rfl⟩ hholder

variable [Fintype T]

theorem counted_of_finished (h : Run Step (· = initial counter rounds) history S)
    (hfinished : ∀ t, (S.threads t).Finished) : S.shared.counter = counter + UInt64.ofNat (∑ t, rounds t) := by
  obtain ⟨_, hspin⟩ := spin_of_run h
  refine SpinLock.counted_of_finished hspin fun t => ?_
  obtain ⟨hpc, hrounds⟩ := hfinished t
  simp [spin, Interleaving.map, Local.spin, SpinLock.Local.Finished, hpc, hrounds]

theorem finishes (hpolicy : ∀ waiters epoch, Wakes waiters epoch (policy waiters epoch))
    (h : Run Step (· = initial counter rounds) history S) :
    ∃ later S', Run (Sound policy) (· = S) later S' ∧ ∀ t, (S'.threads t).Finished := by
  refine Interleaving.reaches Local.work (fun _ _ _ hsound => hsound.step) (fun history S h hunfinished => ?_) h
  obtain ⟨t, op, S', hsound, hwork⟩ := exists_advances hpolicy h hunfinished
  exact ⟨(t, op), S', hsound, hwork⟩

end AtomicWaitLock

end Pans
