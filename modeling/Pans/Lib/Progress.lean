import Mathlib.Order.WellFounded
import Pans.Lib.Interleaving

/-!
# Progress

When every step makes a measure smaller, a run cannot go on for ever, and wherever it goes it comes to a state with
no next step. When some step does, a goal can be reached. Threads that wait for one another in an order do not all
wait.
-/

namespace Run

variable {σ α ι : Type*} {step : σ → α → σ → Prop} {I goal : σ → Prop} {less : ι → ι → Prop} {s : σ}

def Stuck (step : σ → α → σ → Prop) (s : σ) : Prop := ∀ label s', ¬step s label s'

/-- Where the goal is not reached, some step leads nearer to it. -/
theorem reaches (measure : σ → ι) (hless : WellFounded less)
    (hnearer : ∀ s, I s → ¬goal s → ∃ label s', step s label s' ∧ I s' ∧ less (measure s') (measure s)) (h : I s) :
    ∃ history s', Run step (· = s) history s' ∧ I s' ∧ goal s' := by
  induction hs : measure s using hless.induction generalizing s with
  | _ m ih =>
      subst hs
      by_cases hgoal : goal s
      · exact ⟨[], s, .start rfl, h, hgoal⟩
      · obtain ⟨label, s₁, hlabel, hnext, hsmaller⟩ := hnearer s h hgoal
        obtain ⟨history, s', hrun, hs', hgoal'⟩ := ih _ hsmaller hnext rfl
        exact ⟨history ++ [label], s', append (.extend (.start rfl) hlabel) hrun, hs', hgoal'⟩

end Run

/-! ## Waiting -/

/-- Where the goal is not reached, some thread can take a good step that leaves it less work. -/
theorem Interleaving.reaches {T σ ℓ ε : Type*} [Fintype T] {own : T → σ → ℓ → ε → σ → ℓ → Prop}
    {init goal : Interleaving T σ ℓ → Prop} {good : Interleaving T σ ℓ → T × ε → Interleaving T σ ℓ → Prop}
    {history : List (T × ε)} {s : Interleaving T σ ℓ} (work : ℓ → Nat)
    (hgood : ∀ s e s', good s e s' → Step own s e s')
    (hnearer : ∀ history s, Run (Step own) init history s → ¬goal s →
      ∃ e s', good s e s' ∧ work (s'.threads e.1) < work (s.threads e.1))
    (h : Run (Step own) init history s) : ∃ later s', Run good (· = s) later s' ∧ goal s' := by
  have hstep (s : Interleaving T σ ℓ) (h : ∃ history, Run (Step own) init history s) (hgoal : ¬goal s) :
      ∃ e s', good s e s' ∧ (∃ history, Run (Step own) init history s') ∧
        ∑ t, work (s'.threads t) < ∑ t, work (s.threads t) := by
    obtain ⟨history, h⟩ := h
    obtain ⟨e, s', he, hwork⟩ := hnearer history s h hgoal
    have hsum := sum_threads (hgood _ _ _ he) work
    exact ⟨e, s', he, ⟨_, .extend h (hgood _ _ _ he)⟩, by omega⟩
  obtain ⟨later, s', hlater, _, hgoal⟩ := Run.reaches (fun s : Interleaving T σ ℓ => ∑ t, work (s.threads t))
    Nat.lt_wfRel.wf hstep ⟨history, h⟩
  exact ⟨later, s', hlater, hgoal⟩
