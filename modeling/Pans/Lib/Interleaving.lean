import Mathlib.Algebra.BigOperators.Group.Finset.Basic
import Mathlib.Data.Fintype.Basic
import Mathlib.Logic.Function.Basic
import Pans.Lib.Run

/-!
# Interleavings

Threads that share a state: a step of the system is a step of one thread, on the shared state and on what is the
thread's own, and leaves what is the others' own alone. What holds of every thread is shown thread by thread: it
survives the steps of the thread itself, and those of another thread of which it holds as well.
-/

structure Interleaving (T σ ℓ : Type*) where
  shared : σ
  threads : T → ℓ

namespace Interleaving

variable {T σ ℓ ε : Type*}

structure Step (own : T → σ → ℓ → ε → σ → ℓ → Prop) (s : Interleaving T σ ℓ) (e : T × ε)
    (s' : Interleaving T σ ℓ) : Prop where
  own : own e.1 s.shared (s.threads e.1) e.2 s'.shared (s'.threads e.1)
  others : ∀ u, u ≠ e.1 → s'.threads u = s.threads u

variable {own : T → σ → ℓ → ε → σ → ℓ → Prop} {init : Interleaving T σ ℓ → Prop} {history : List (T × ε)}
  {s : Interleaving T σ ℓ}

/-- What holds of the new state of one thread and of the old states of the others holds of all. -/
theorem forall_of_others {s s' : Interleaving T σ ℓ} {t : T} {P : T → ℓ → Prop}
    (hothers : ∀ u, u ≠ t → s'.threads u = s.threads u) (hself : P t (s'.threads t))
    (hrest : ∀ u, u ≠ t → P u (s.threads u)) (u : T) : P u (s'.threads u) := by
  by_cases hu : u = t
  · exact hu ▸ hself
  · rw [hothers u hu]
    exact hrest u hu

theorem forall_threads {I : List (T × ε) → σ → T → ℓ → Prop}
    (hinit : ∀ s, init s → ∀ t, I [] s.shared t (s.threads t))
    (hown : ∀ history s t l e s' l', I history s t l → own t s l e s' l' → I ((t, e) :: history) s' t l')
    (hother : ∀ history s t l e s' l' u m, u ≠ t → I history s u m → I history s t l → own t s l e s' l' →
      I ((t, e) :: history) s' u m)
    (h : Run (Step own) init history s) (t : T) : I history s.shared t (s.threads t) := by
  classical
  induction h generalizing t with
  | start h => exact hinit _ h t
  | @extend history s e s' _ hstep ih =>
      obtain ⟨u, e⟩ := e
      by_cases htu : t = u
      · subst htu
        exact hown _ _ _ _ _ _ _ (ih t) hstep.own
      · rw [hstep.others t htu]
        exact hother _ _ _ _ _ _ _ _ _ htu (ih t) (ih u) hstep.own

/-- A sum over the threads changes by what changes for the thread that moves. -/
theorem sum_threads {M : Type*} [AddCommMonoid M] [Fintype T] {s s' : Interleaving T σ ℓ} {e : T × ε}
    (hstep : Step own s e s') (f : ℓ → M) :
    ∑ t, f (s'.threads t) + f (s.threads e.1) = ∑ t, f (s.threads t) + f (s'.threads e.1) := by
  classical
  have hrest : ∑ t ∈ Finset.univ.erase e.1, f (s'.threads t) = ∑ t ∈ Finset.univ.erase e.1, f (s.threads t) :=
    Finset.sum_congr rfl fun t ht => by rw [hstep.others t (Finset.ne_of_mem_erase ht)]
  rw [← Finset.sum_erase_add Finset.univ (fun t => f (s'.threads t)) (Finset.mem_univ e.1),
    ← Finset.sum_erase_add Finset.univ (fun t => f (s.threads t)) (Finset.mem_univ e.1), hrest, add_right_comm]

/-! ## Simulation -/

def map {σ' ℓ' : Type*} (f : σ → σ') (g : ℓ → ℓ') (s : Interleaving T σ ℓ) : Interleaving T σ' ℓ' :=
  ⟨f s.shared, fun t => g (s.threads t)⟩

/-- Threads follow others one by one. -/
theorem step_map {σ' ℓ' ε' : Type*} {own' : T → σ' → ℓ' → ε' → σ' → ℓ' → Prop} {f : σ → σ'} {g : ℓ → ℓ'}
    {s s' : Interleaving T σ ℓ} {label : T × ε}
    (hown : ∀ t s l e s' l', own t s l e s' l' →
      f s' = f s ∧ g l' = g l ∨ ∃ e', own' t (f s) (g l) e' (f s') (g l'))
    (h : Step own s label s') :
    s'.map f g = s.map f g ∨ ∃ label', Step own' (s.map f g) label' (s'.map f g) := by
  have hothers (u : T) (hu : u ≠ label.1) : g (s'.threads u) = g (s.threads u) := by rw [h.others u hu]
  rcases hown _ _ _ _ _ _ h.own with ⟨hshared, hlocal⟩ | ⟨e', hstep⟩
  · refine .inl ?_
    have hthreads : (fun t => g (s'.threads t)) = fun t => g (s.threads t) := by
      funext t
      by_cases ht : t = label.1
      · rw [ht, hlocal]
      · exact hothers t ht
    rw [map, map, hshared, hthreads]
  · exact .inr ⟨(label.1, e'), hstep, hothers⟩

/-! ## Schedules -/

section

variable {α : Type*} [DecidableEq T]

def advance (move : T → σ → ℓ → α → Option (ε × σ × ℓ)) (s : Interleaving T σ ℓ) (t : T) (a : α) :
    Option ((T × ε) × Interleaving T σ ℓ) :=
  (move t s.shared (s.threads t) a).map fun (e, shared, l) => ((t, e), ⟨shared, Function.update s.threads t l⟩)

/-- The turns come latest first, as in a history. -/
def schedule (move : T → σ → ℓ → α → Option (ε × σ × ℓ)) (s : Interleaving T σ ℓ) :
    List (T × α) → Option (List (T × ε) × Interleaving T σ ℓ)
  | [] => some ([], s)
  | (t, a) :: turns =>
      (schedule move s turns).bind fun (history, s') =>
        (advance move s' t a).map fun (label, s'') => (label :: history, s'')

variable {move : T → σ → ℓ → α → Option (ε × σ × ℓ)}

theorem step_of_advance (hmove : ∀ t s l a e s' l', move t s l a = some (e, s', l') → own t s l e s' l')
    {s s' : Interleaving T σ ℓ} {t : T} {a : α} {label : T × ε} (h : advance move s t a = some (label, s')) :
    Step own s label s' := by
  obtain ⟨⟨e, shared, l⟩, hlocal, heq⟩ := Option.map_eq_some_iff.mp h
  cases heq
  refine ⟨?_, fun u hu => Function.update_of_ne hu _ _⟩
  simpa using hmove _ _ _ _ _ _ _ hlocal

theorem run_of_schedule (hmove : ∀ t s l a e s' l', move t s l a = some (e, s', l') → own t s l e s' l')
    {s s' : Interleaving T σ ℓ} {turns : List (T × α)} {history : List (T × ε)} (hinit : init s)
    (h : schedule move s turns = some (history, s')) : Run (Step own) init history s' := by
  induction turns generalizing history s' with
  | nil =>
      cases h
      exact .start hinit
  | cons turn turns ih =>
      obtain ⟨⟨history₁, s₁⟩, hbefore, hlast⟩ := Option.bind_eq_some_iff.mp h
      obtain ⟨⟨label, s₂⟩, hadvance, heq⟩ := Option.map_eq_some_iff.mp hlast
      cases heq
      exact .extend (ih hbefore) (step_of_advance hmove hadvance)

end

end Interleaving
