import Mathlib.Data.List.Forall2
import Pans.Basic

/-!
# UTF-8 and UTF-16 as Unicode defines them

The byte ranges are those of Table 3-7, the values those of Table 3-6. Nothing here refers to the converter.
-/

namespace Pans

def IsScalar (c : UInt32) : Prop := c.toNat ≤ 0x10FFFF ∧ ¬(0xD800 ≤ c.toNat ∧ c.toNat ≤ 0xDFFF)

instance (c : UInt32) : Decidable (IsScalar c) := inferInstanceAs (Decidable (_ ∧ _))

/-! ## UTF-8 -/

/-- Table 3-7: the range of each byte of a well-formed sequence. -/
def utf8Table : List (List (Nat × Nat)) := [
  [(0x00, 0x7F)],
  [(0xC2, 0xDF), (0x80, 0xBF)],
  [(0xE0, 0xE0), (0xA0, 0xBF), (0x80, 0xBF)],
  [(0xE1, 0xEC), (0x80, 0xBF), (0x80, 0xBF)],
  [(0xED, 0xED), (0x80, 0x9F), (0x80, 0xBF)],
  [(0xEE, 0xEF), (0x80, 0xBF), (0x80, 0xBF)],
  [(0xF0, 0xF0), (0x90, 0xBF), (0x80, 0xBF), (0x80, 0xBF)],
  [(0xF1, 0xF3), (0x80, 0xBF), (0x80, 0xBF), (0x80, 0xBF)],
  [(0xF4, 0xF4), (0x80, 0x8F), (0x80, 0xBF), (0x80, 0xBF)]]

def IsUtf8Sequence (bytes : Bytes) : Prop :=
  ∃ row ∈ utf8Table, List.Forall₂ (fun b range => range.1 ≤ b.toNat ∧ b.toNat ≤ range.2) bytes row

/-- Table 3-6: the payload bits of a sequence, read as one number. -/
def utf8Value : Bytes → Nat
  | [a] => a.toNat
  | [a, b] => a.toNat % 32 * 64 + b.toNat % 64
  | [a, b, c] => (a.toNat % 16 * 64 + b.toNat % 64) * 64 + c.toNat % 64
  | [a, b, c, d] => ((a.toNat % 8 * 64 + b.toNat % 64) * 64 + c.toNat % 64) * 64 + d.toNat % 64
  | _ => 0

/-- `s` is the sequences `seqs` one after the other. -/
def IsUtf8 (s : Bytes) (seqs : List Bytes) : Prop := (∀ bytes ∈ seqs, IsUtf8Sequence bytes) ∧ s = seqs.flatten

/-! ## UTF-16 -/

def IsHigh (u : UInt16) : Prop := 0xD800 ≤ u.toNat ∧ u.toNat ≤ 0xDBFF

def IsLow (u : UInt16) : Prop := 0xDC00 ≤ u.toNat ∧ u.toNat ≤ 0xDFFF

/-- Every high surrogate is followed by a low one, and every low surrogate follows a high one. -/
def IsWellFormedUtf16 (w : List UInt16) : Prop :=
  ∀ i u, w[i]? = some u →
    (IsHigh u → ∃ v, w[i + 1]? = some v ∧ IsLow v) ∧ (IsLow u → ∃ j v, i = j + 1 ∧ w[j]? = some v ∧ IsHigh v)

inductive IsUtf16 : List UInt16 → List UInt32 → Prop where
  | nil : IsUtf16 [] []
  | unit {u c w cs} : ¬IsHigh u → ¬IsLow u → c.toNat = u.toNat → IsUtf16 w cs → IsUtf16 (u :: w) (c :: cs)
  | pair {u v c w cs} : IsHigh u → IsLow v →
      c.toNat = 0x10000 + (u.toNat - 0xD800) * 0x400 + (v.toNat - 0xDC00) → IsUtf16 w cs →
      IsUtf16 (u :: v :: w) (c :: cs)

end Pans
