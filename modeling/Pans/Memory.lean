import Mathlib.Algebra.Ring.Nat
import Pans.Basic
import Pans.Lib.Outcome

/-!
# Bytes in memory

Arrays, ranges of bytes and their sizes. `size_t` is 64 bits wide, and no object is larger than `PTRDIFF_MAX` bytes,
so neither is an array, a vector or a range of bytes.
-/

namespace Pans

abbrev objectLimit : Nat := 2 ^ 63

abbrev ArraySize := {size : Nat // size < objectLimit}

abbrev Chars := {bytes : Bytes // bytes.length < objectLimit}

/-- `std::array<char, n>`. -/
abbrev CharArray (n : Nat) := {bytes : Bytes // bytes.length = n}

def CharArray.zeros (n : Nat) : CharArray n := ⟨List.replicate n 0, List.length_replicate⟩

def addSize (a b : Nat) : Nat := (a + b) % 2 ^ 64

def mulSize (a b : Nat) : Nat := a * b % 2 ^ 64

/-- The bytes from a pointer on, of those that are there to be read. -/
def charRange (bytes : Bytes) (size : Nat) : Option Bytes :=
  if size ≤ bytes.length then some (bytes.take size) else none

/-- `std::memcpy` to `array.data() + offset`. -/
def memcpy {n : Nat} (array : CharArray n) (offset : Nat) (data : Bytes) : Outcome (CharArray n) Unit :=
  if h : offset + data.length ≤ n then
    .done ⟨array.val.take offset ++ data ++ array.val.drop (offset + data.length), by
      have := array.property
      simp only [List.length_append, List.length_take, List.length_drop]
      omega⟩ ()
  else .undefined

/-- `array[index] = value`. -/
def CharArray.store {n : Nat} (array : CharArray n) (index : Nat) (value : Byte) : Option (CharArray n) :=
  if index < n then some ⟨array.val.set index value, by rw [List.length_set, array.property]⟩ else none

theorem addSize_eq {a b : Nat} (ha : a < objectLimit) (hb : b < objectLimit) : addSize a b = a + b :=
  Nat.mod_eq_of_lt (Nat.lt_of_lt_of_le (Nat.add_lt_add ha hb) (by decide))

theorem addSize_comm (a b : Nat) : addSize a b = addSize b a := congrArg (· % 2 ^ 64) (Nat.add_comm a b)

theorem two_mulSize (size : ArraySize) : mulSize 2 size = 2 * size := Nat.mod_eq_of_lt (by
  have := size.property
  simp only [objectLimit] at this
  omega)

theorem charRange_eq {bytes : Bytes} {size : Nat} (h : size ≤ bytes.length) :
    charRange bytes size = some (bytes.take size) := if_pos h

theorem memcpy_eq {n offset : Nat} (array : CharArray n) {data : Bytes} (h : offset + data.length ≤ n) :
    ∃ array', memcpy array offset data = .done array' () ∧
      array'.val.take (offset + data.length) = array.val.take offset ++ data := by
  have hlength := array.property
  have hprefix : (array.val.take offset ++ data).length = offset + data.length := by
    rw [List.length_append, List.length_take]
    omega
  rw [memcpy, dif_pos h]
  exact ⟨_, rfl, List.take_left' hprefix⟩

end Pans
