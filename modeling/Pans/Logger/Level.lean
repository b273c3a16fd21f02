import Pans.Logger.Record
import Pans.Memory

/-!
# `LogLevel::FromString`

The text is written in upper case into an array of six bytes, and is compared with the names of the levels there.
-/

namespace Pans

/-- `std::toupper` in the C locale. -/
def toUpper (character : Byte) : Byte :=
  if byte 'a' ≤ character ∧ character ≤ byte 'z' then character - 32 else character

/-- `std::transform` into an array, from `index` on. -/
def transformLoop {n : Nat} (f : Byte → Byte) : Bytes → (index : Nat) → CharArray n → Option (CharArray n)
  | [], _, array => some array
  | character :: value, index, array =>
      (array.store index (f character)).bind fun array => transformLoop f value (index + 1) array

namespace LogLevel

/-- The comparisons at the end of `FromString`. -/
def ofUpperValue (upperValue : Bytes) : LogLevel :=
  if upperValue = ascii "DEBUG" then debug
  else if upperValue = ascii "INFO" then info
  else if upperValue = ascii "WARN" then warn
  else if upperValue = ascii "FATAL" then fatal
  else if upperValue = ascii "OFF" then off
  else if upperValue = ascii "ERROR" then error
  else off

/-- `none` if the text or the view goes beyond the array. -/
def fromString (value : Bytes) : Option LogLevel :=
  (transformLoop toUpper value 0 (CharArray.zeros 6)).bind fun normalized =>
    (charRange normalized value.length).map ofUpperValue

/-- The level that a text names: the one whose name it is but for case, and OFF if there is none. -/
def Names (value : Bytes) (level : LogLevel) : Prop :=
  if level = off then ∀ other, other ≠ off → value.map toUpper ≠ other.toString
  else value.map toUpper = level.toString

end LogLevel

/-! ## The array -/

theorem transformLoop_eq {n : Nat} (f : Byte → Byte) {value : Bytes} {index : Nat} (array : CharArray n)
    (h : index + value.length ≤ n) :
    ∃ array', transformLoop f value index array = some array' ∧
      array'.val.take (index + value.length) = array.val.take index ++ value.map f := by
  induction value generalizing index array with
  | nil => exact ⟨array, rfl, by simp⟩
  | cons character value ih =>
      rw [List.length_cons] at h
      have hindex : index < n := by omega
      have hrest : index + 1 + value.length ≤ n := by omega
      obtain ⟨array', hloop, htake⟩ :=
        ih ⟨array.val.set index (f character), by rw [List.length_set, array.property]⟩ hrest
      refine ⟨array', ?_, ?_⟩
      · rw [transformLoop, CharArray.store, if_pos hindex, Option.bind_some, hloop]
      · have hlength : index < array.val.length := by rwa [array.property]
        rw [List.length_cons, ← Nat.add_assoc, Nat.add_right_comm, htake, List.take_add_one]
        simp [List.getElem?_set_self hlength, List.take_set_of_le (Nat.le_refl index)]

theorem transformLoop_eq_none {n : Nat} (f : Byte → Byte) {value : Bytes} {index : Nat} (array : CharArray n)
    (h : n < index + value.length) (hindex : index ≤ n) : transformLoop f value index array = none := by
  induction value generalizing index array with
  | nil => exact absurd h (Nat.not_lt.mpr hindex)
  | cons character value ih =>
      rw [List.length_cons] at h
      rw [transformLoop, CharArray.store]
      split
      · rw [Option.bind_some]
        exact ih _ (by omega) (by omega)
      · rfl

namespace LogLevel

theorem ofUpperValue_toString (level : LogLevel) : ofUpperValue level.toString = level := by
  cases level <;> decide +kernel

theorem ofUpperValue_off_or (upperValue : Bytes) :
    ofUpperValue upperValue = off ∨ upperValue = (ofUpperValue upperValue).toString := by
  unfold ofUpperValue
  split_ifs with hdebug hinfo hwarn hfatal hoff herror
  exacts [.inr hdebug, .inr hinfo, .inr hwarn, .inr hfatal, .inl rfl, .inr herror, .inl rfl]

theorem ofUpperValue_eq_iff {upperValue : Bytes} {level : LogLevel} (hlevel : level ≠ off) :
    ofUpperValue upperValue = level ↔ upperValue = level.toString := by
  refine ⟨?_, fun h => h ▸ ofUpperValue_toString level⟩
  rintro rfl
  exact (ofUpperValue_off_or upperValue).resolve_left hlevel

/-- Within the array, the comparisons find the level that the text names. -/
theorem fromString_eq {value : Bytes} (h : value.length ≤ 6) :
    fromString value = some (ofUpperValue (value.map toUpper)) := by
  have hfits : 0 + value.length ≤ 6 := by rwa [Nat.zero_add]
  obtain ⟨normalized, hloop, htake⟩ := transformLoop_eq toUpper (CharArray.zeros 6) hfits
  rw [Nat.zero_add, List.take_zero, List.nil_append] at htake
  rw [fromString, hloop, Option.bind_some, charRange_eq (by rwa [normalized.property]), htake, Option.map_some]

theorem ofUpperValue_names (value : Bytes) (level : LogLevel) :
    ofUpperValue (value.map toUpper) = level ↔ Names value level := by
  unfold Names
  split
  · rename_i hoff
    subst hoff
    constructor
    · intro h other hother heq
      exact hother (((ofUpperValue_eq_iff hother).mpr heq).symm.trans h)
    · intro h
      by_contra hne
      exact h _ hne ((ofUpperValue_eq_iff hne).mp rfl)
  · rename_i hlevel
    exact ofUpperValue_eq_iff hlevel

end LogLevel

end Pans
