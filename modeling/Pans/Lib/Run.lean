import Mathlib.Init

/-!
# Labelled runs

A run of a transition system, with the labels of its steps. The history of a run has the latest label first, so
that what is true "since" or "most recently" reads off its front.
-/

inductive Run {σ α : Type*} (step : σ → α → σ → Prop) (init : σ → Prop) : List α → σ → Prop where
  | start {s} : init s → Run step init [] s
  | extend {history s label s'} : Run step init history s → step s label s' → Run step init (label :: history) s'

namespace Run

variable {σ α : Type*} {step : σ → α → σ → Prop} {init : σ → Prop} {history : List α} {s : σ}

/-- A relation between history and state that holds at the start and survives every step holds of every run. -/
theorem invariant {I : List α → σ → Prop} (hinit : ∀ s, init s → I [] s)
    (hstep : ∀ history s label s', I history s → step s label s' → I (label :: history) s')
    (h : Run step init history s) : I history s := by
  induction h with
  | start h => exact hinit _ h
  | extend _ h ih => exact hstep _ _ _ _ ih h

/-- What holds at a state holds from then on, as long as the labels are of the kind that keeps it. -/
theorem since {I : List α → σ → Prop} {K : α → Prop} {s₀ : σ} (hstart : I [] s₀)
    (hstep : ∀ history s label s', I history s → K label → step s label s' → I (label :: history) s')
    (h : Run step (· = s₀) history s) (hok : ∀ label ∈ history, K label) : I history s := by
  induction h with
  | start heq => exact heq ▸ hstart
  | extend _ hlabel ih =>
      obtain ⟨hnow, hbefore⟩ := List.forall_mem_cons.mp hok
      exact hstep _ _ _ _ (ih hbefore) hnow hlabel

/-- A run passes through the states before and after each of its steps. -/
theorem around {later earlier : List α} {label : α} (h : Run step init (later ++ label :: earlier) s) :
    ∃ s₁ s₂, Run step init earlier s₁ ∧ step s₁ label s₂ ∧ Run step (· = s₂) later s := by
  induction later generalizing s with
  | nil =>
      cases h with
      | extend h hlabel => exact ⟨_, _, h, hlabel, .start rfl⟩
  | cons _ _ ih =>
      cases h with
      | extend h hlast =>
          obtain ⟨s₁, s₂, hearlier, hlabel, hlater⟩ := ih h
          exact ⟨s₁, s₂, hearlier, hlabel, .extend hlater hlast⟩

/-- A run from one state, behind a run that leads to that state. -/
theorem append {later earlier : List α} {s' : σ} (h : Run step init earlier s)
    (h' : Run step (· = s) later s') : Run step init (later ++ earlier) s' := by
  induction h' with
  | start heq =>
      subst heq
      exact h
  | extend _ hlabel ih => exact .extend ih hlabel

theorem mono {step' : σ → α → σ → Prop} (hsub : ∀ s label s', step s label s' → step' s label s')
    (h : Run step init history s) :
    Run step' init history s := by
  induction h with
  | start h => exact .start h
  | extend _ hlabel ih => exact .extend ih (hsub _ _ _ hlabel)

theorem mono_init {init' : σ → Prop} (hsub : ∀ s, init s → init' s) (h : Run step init history s) :
    Run step init' history s := by
  induction h with
  | start h => exact .start (hsub _ h)
  | extend _ hlabel ih => exact .extend ih hlabel

/-- Steps that change nothing can be left out of a run. -/
theorem leave_out {keep : α → Bool} {later earlier : List α} (h : Run step init (later ++ earlier) s)
    (hstill : ∀ label since s₁ s₂, label :: since <:+ later → keep label = false →
      Run step init (since ++ earlier) s₁ → step s₁ label s₂ → s₂ = s₁) :
    Run step init (later.filter keep ++ earlier) s := by
  induction later generalizing s with
  | nil => exact h
  | cons label since ih =>
      cases h with
      | extend hbefore hlabel =>
          have hrest := ih hbefore fun label' since' s₁ s₂ hsuffix =>
            hstill label' since' s₁ s₂ (hsuffix.trans (List.suffix_cons label since))
          cases hkeep : keep label with
          | true =>
              rw [List.filter_cons, hkeep]
              exact .extend hrest hlabel
          | false =>
              obtain rfl := hstill label since _ _ (List.suffix_refl _) hkeep hbefore hlabel
              rw [List.filter_cons, hkeep]
              exact hrest

/-- A system follows another: a step is one of the other's, or the other stays where it is. -/
theorem simulate {σ' α' : Type*} {step' : σ' → α' → σ' → Prop} {init' : σ' → Prop} {abs : σ → σ'}
    (hinit : ∀ s, init s → init' (abs s))
    (hstep : ∀ s label s', step s label s' → abs s' = abs s ∨ ∃ label', step' (abs s) label' (abs s'))
    (h : Run step init history s) : ∃ history', Run step' init' history' (abs s) := by
  induction h with
  | start h => exact ⟨[], .start (hinit _ h)⟩
  | extend _ hlabel ih =>
      obtain ⟨history', ih⟩ := ih
      rcases hstep _ _ _ hlabel with hsame | ⟨label', hlabel'⟩
      · exact ⟨history', hsame ▸ ih⟩
      · exact ⟨label' :: history', .extend ih hlabel'⟩

/-! ## Turns -/

/-- The turns come latest first, as in a history. -/
def follow {β : Type*} (move : σ → β → Option (α × σ)) (s : σ) : List β → Option (List α × σ)
  | [] => some ([], s)
  | turn :: turns =>
      (follow move s turns).bind fun (history, s') =>
        (move s' turn).map fun (label, s'') => (label :: history, s'')

theorem of_follow {β : Type*} {move : σ → β → Option (α × σ)} {turns : List β} {s₀ : σ}
    (hmove : ∀ s turn label s', move s turn = some (label, s') → step s label s') (hinit : init s₀)
    (h : follow move s₀ turns = some (history, s)) : Run step init history s := by
  induction turns generalizing history s with
  | nil =>
      cases h
      exact .start hinit
  | cons turn turns ih =>
      obtain ⟨⟨history₁, s₁⟩, hbefore, hlast⟩ := Option.bind_eq_some_iff.mp h
      obtain ⟨⟨label, s₂⟩, hturn, heq⟩ := Option.map_eq_some_iff.mp hlast
      cases heq
      exact .extend (ih hbefore) (hmove _ _ _ _ hturn)

end Run
