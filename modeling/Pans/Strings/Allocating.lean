import Pans.Formatter.Construct
import Pans.Lib.Growable
import Pans.Strings.Convert
import Pans.Strings.Unicode

/-!
# `StringUtils` when storage runs out

The two conversions with the requests for storage that `reserve` and `push_back` make, with the assertions that they
log, and with the `catch (...)` around them. They are `noexcept`: what leaves one of them as a throw ends the process.
-/

namespace Pans

namespace StringUtils

/-- The storage of one conversion: the room of a string that holds nothing yet, and what comes of the requests. A
`push_back` makes one only if the string is full, so at most once at each length. -/
structure Storage where
  initial : Nat
  reserve : Allocation
  pushBack : Nat → Allocation

/-- `std::string result;` -/
def Storage.empty {α : Type} {limit : Nat} (storage : Storage) : Growable α limit :=
  ⟨[], min storage.initial limit, Nat.zero_le _, Nat.min_le_right _ _⟩

section

variable {S : Type} {limit : Nat} (assertFailed : AssertFailure → S → Outcome S Unit)

/-! ## The loops -/

section

variable (pushBack : Nat → Allocation)

end

/-! ## The public functions -/

variable (storage : Storage)

/-- The call comes back empty once the exception is logged. -/
def refused {α : Type} (exception : AssertFailure) (s : S) : Outcome S (List α) :=
  assertRetVal assertFailed exception [] s

/-- The call comes back with all of the result, or empty once the flaw of the text is logged. -/
def granted {α : Type} (exception flaw : AssertFailure) (s : S) : Option (List α) → Outcome S (List α)
  | some result => .done s result
  | none => (assertRetVal assertFailed flaw [] s).tryCatch fun s => refused assertFailed exception s

/-- `reserve` throws. -/
def Storage.Refuses (storage : Storage) (limit size : Nat) : Prop :=
  limit < size ∨ storage.initial < size ∧ storage.reserve = none

instance (storage : Storage) (limit size : Nat) : Decidable (storage.Refuses limit size) :=
  inferInstanceAs (Decidable (_ ∨ _))

/-- `reserve` throws, or one of the `push_back`s for what goes beyond the reserved room does. -/
def Storage.Fails (storage : Storage) (limit size needed : Nat) : Prop :=
  storage.Refuses limit size ∨ ∃ n, size ≤ n ∧ n < needed ∧ (storage.pushBack n = none ∨ limit ≤ n)

/-- A call ends in one of the two ways. It needs storage for a text of `size` units, and for a result of length
`needed`. -/
def Ends {α : Type} (exception flaw : AssertFailure) (storage : Storage) (limit size needed : Nat) (s : S)
    (result : Option (List α)) (call : Outcome S (List α)) : Prop :=
  call = granted assertFailed exception flaw s result ∧ ¬storage.Refuses limit size ∨
    call = refused assertFailed exception s ∧ storage.Fails limit size needed

end

end StringUtils

end Pans
