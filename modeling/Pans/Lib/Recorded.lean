import Mathlib.Init

/-!
# Computations that record what they do

A computation keeps a record of its operations, those with a precondition. It has no result where an operation has none.
`Safe P Q` says that every recorded operation satisfies `P`, and that there is a result, which satisfies `Q`.
-/

structure Recorded (ε α : Type*) where
  operations : List ε
  result : Option α
  deriving DecidableEq, Repr

namespace Recorded

variable {ε α β : Type*}

def pure (a : α) : Recorded ε α := ⟨[], some a⟩

def bind (x : Recorded ε α) (f : α → Recorded ε β) : Recorded ε β :=
  match x.result with
  | none => ⟨x.operations, none⟩
  | some a => ⟨x.operations ++ (f a).operations, (f a).result⟩

def Safe (P : ε → Prop) (Q : α → Prop) (x : Recorded ε α) : Prop :=
  (∀ operation ∈ x.operations, P operation) ∧ ∃ a, x.result = some a ∧ Q a

variable {P : ε → Prop} {Q : α → Prop} {R : β → Prop}

theorem safe_pure {a : α} (h : Q a) : (pure a : Recorded ε α).Safe P Q := ⟨by simp [pure], a, rfl, h⟩

theorem safe_operation {operation : ε} {a : α} (hoperation : P operation) (h : Q a) :
    (⟨[operation], some a⟩ : Recorded ε α).Safe P Q := ⟨by simpa using hoperation, a, rfl, h⟩

theorem Safe.bind {x : Recorded ε α} {f : α → Recorded ε β} (hx : x.Safe P Q) (hf : ∀ a, Q a → (f a).Safe P R) :
    (x.bind f).Safe P R := by
  obtain ⟨hoperations, a, ha, hQ⟩ := hx
  obtain ⟨hoperations', b, hb, hR⟩ := hf a hQ
  simp only [Safe, Recorded.bind, ha, List.forall_mem_append]
  exact ⟨⟨hoperations, hoperations'⟩, b, hb, hR⟩

end Recorded
