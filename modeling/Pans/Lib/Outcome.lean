import Mathlib.Init

/-!
# Outcomes of code that may throw

A call comes back with a value or throws; what it has done to the state by then stays done either way. `undefined`
is undefined behaviour, after which nothing is known.
-/

inductive Outcome (σ α : Type*) where
  | done (s : σ) (a : α)
  | threw (s : σ)
  | undefined
  deriving DecidableEq, Repr

namespace Outcome

variable {σ τ α β : Type*}

/-- What comes after a throw is not run. -/
def bind (x : Outcome σ α) (f : σ → α → Outcome σ β) : Outcome σ β :=
  match x with
  | done s a => f s a
  | threw s => threw s
  | undefined => undefined

/-- A call on a part of the state. -/
def within (put : τ → σ) (x : Outcome τ α) : Outcome σ α :=
  match x with
  | done s a => done (put s) a
  | threw s => threw (put s)
  | undefined => undefined

/-- A call on a local variable. A throw takes the variable with it and leaves the state as it was. -/
def onLocal (x : Outcome τ α) (s : σ) (f : τ → α → Outcome σ β) : Outcome σ β :=
  match x with
  | done t a => f t a
  | threw _ => threw s
  | undefined => undefined

/-- The handler takes over where something is thrown. -/
def tryCatch (x : Outcome σ α) (handler : σ → Outcome σ α) : Outcome σ α :=
  match x with
  | done s a => done s a
  | threw s => handler s
  | undefined => undefined

/-- A destructor runs on every way out of its scope, also on that of a throw. -/
def leaving (x : Outcome σ α) (destructor : σ → Outcome τ Unit) : Outcome τ α :=
  match x with
  | done s a => (destructor s).bind fun t _ => done t a
  | threw s => (destructor s).bind fun t _ => threw t
  | undefined => undefined

/-- The state that a call leaves, however it comes back. -/
def after : Outcome σ α → Option σ
  | done s _ => some s
  | threw s => some s
  | undefined => none

theorem bind_done_eq_done {x : Outcome σ α} {f : α → β} {s : σ} {b : β} :
    (x.bind fun s a => .done s (f a)) = .done s b ↔ ∃ a, x = .done s a ∧ f a = b := by
  cases x <;> simp [bind, and_assoc]

theorem bind_done_eq_threw {x : Outcome σ α} {f : α → β} {s : σ} :
    (x.bind fun s a => .done s (f a)) = .threw s ↔ x = .threw s := by
  cases x <;> simp [bind]

/-- How a call ends that returns nothing. -/
def ended (s : σ) (thrown : Bool) : Outcome σ Unit := if thrown then threw s else done s ()

theorem leaving_ended {s : σ} {t : τ} {destructor : σ → Outcome τ Unit} (thrown : Bool)
    (h : destructor s = done t ()) : (ended s thrown).leaving destructor = ended t thrown := by
  cases thrown <;> simp [ended, leaving, h, bind]

theorem within_leaving (x : Outcome τ α) (put : τ → σ) (destructor : σ → Outcome β Unit) :
    (x.within put).leaving destructor = x.leaving fun t => destructor (put t) := by
  cases x <;> rfl

/-- Two destructors run one after the other. -/
theorem leaving_leaving {υ : Type*} (x : Outcome σ α) (first : σ → Outcome τ Unit) (second : τ → Outcome υ Unit) :
    (x.leaving first).leaving second = x.leaving fun s => (first s).leaving second := by
  cases x with
  | undefined => rfl
  | done s a =>
      simp only [leaving]
      cases first s with
      | undefined => rfl
      | done t _ => cases h : second t <;> simp [bind, h]
      | threw t => cases h : second t <;> simp [bind, h]
  | threw s =>
      simp only [leaving]
      cases first s with
      | undefined => rfl
      | done t _ => cases h : second t <;> simp [bind, h]
      | threw t => cases h : second t <;> simp [bind, h]

theorem ended_ne_undefined {s : σ} {thrown : Bool} : ended s thrown ≠ undefined := by
  cases thrown <;> simp [ended]

theorem ended_inj {s s' : σ} {thrown thrown' : Bool} : ended s thrown = ended s' thrown' ↔ s = s' ∧ thrown = thrown' := by
  cases thrown <;> cases thrown' <;> simp [ended]

theorem undefined_or_ended (x : Outcome σ Unit) : x = undefined ∨ ∃ s thrown, x = ended s thrown := by
  cases x with
  | done s a => exact .inr ⟨s, false, rfl⟩
  | threw s => exact .inr ⟨s, true, rfl⟩
  | undefined => exact .inl rfl

theorem done_eq_ended {s s' : σ} {thrown : Bool} : done s () = ended s' thrown ↔ s = s' ∧ thrown = false := by
  cases thrown <;> simp [ended]

theorem threw_eq_ended {s s' : σ} {thrown : Bool} : threw s = ended s' thrown ↔ s = s' ∧ thrown = true := by
  cases thrown <;> simp [ended]

theorem bind_eq_ended {x : Outcome σ Unit} {f : σ → Unit → Outcome σ Unit} {s : σ} {thrown : Bool} :
    x.bind f = ended s thrown ↔
      (∃ s₁, x = ended s₁ false ∧ f s₁ () = ended s thrown) ∨ x = ended s true ∧ thrown = true := by
  cases x <;> cases thrown <;> simp [bind, ended]

theorem within_eq_ended {x : Outcome τ Unit} {put : τ → σ} {s : σ} {thrown : Bool} :
    x.within put = ended s thrown ↔ ∃ t, x = ended t thrown ∧ put t = s := by
  cases x <;> cases thrown <;> simp [within, ended]

theorem tryCatch_eq_ended {x : Outcome σ Unit} {s : σ} {thrown : Bool} :
    (x.tryCatch fun s => done s ()) = ended s thrown ↔ (∃ thrown', x = ended s thrown') ∧ thrown = false := by
  cases x <;> cases thrown <;> simp [tryCatch, ended]

/-! ## Ways to end -/

/-- The call comes back with the value, in a state with the property. -/
def Yields (x : Outcome σ α) (a : α) (P : σ → Prop) : Prop := ∃ s, x = done s a ∧ P s

/-- The call throws, in a state with the property. -/
def Throws (x : Outcome σ α) (P : σ → Prop) : Prop := ∃ s, x = threw s ∧ P s

section

variable {x : Outcome σ α} {a : α} {f : σ → α → Outcome σ β} {b : β} {P Q : σ → Prop}

theorem yields_done {s : σ} (h : P s) : (done s a).Yields a P := ⟨s, rfl, h⟩

theorem Yields.bind (h : x.Yields a P) (hf : ∀ s, P s → (f s a).Yields b Q) : (x.bind f).Yields b Q := by
  obtain ⟨s, rfl, hs⟩ := h
  exact hf s hs

theorem Yields.bind_throws (h : x.Yields a P) (hf : ∀ s, P s → (f s a).Throws Q) : (x.bind f).Throws Q := by
  obtain ⟨s, rfl, hs⟩ := h
  exact hf s hs

theorem Throws.bind (h : x.Throws P) : (x.bind f).Throws P := by
  obtain ⟨s, rfl, hs⟩ := h
  exact ⟨s, rfl, hs⟩

theorem Yields.imp (h : x.Yields a P) (hPQ : ∀ s, P s → Q s) : x.Yields a Q := by
  obtain ⟨s, hx, hs⟩ := h
  exact ⟨s, hx, hPQ s hs⟩

theorem Throws.imp (h : x.Throws P) (hPQ : ∀ s, P s → Q s) : x.Throws Q := by
  obtain ⟨s, hx, hs⟩ := h
  exact ⟨s, hx, hPQ s hs⟩

theorem Yields.after (h : x.Yields a P) : ∃ s, x.after = some s ∧ P s := by
  obtain ⟨s, rfl, hs⟩ := h
  exact ⟨s, rfl, hs⟩

theorem Throws.after (h : x.Throws P) : ∃ s, x.after = some s ∧ P s := by
  obtain ⟨s, rfl, hs⟩ := h
  exact ⟨s, rfl, hs⟩

end

end Outcome
