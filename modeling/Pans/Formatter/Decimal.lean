import Pans.Formatter.Time
import Pans.Lib.Codec

/-!
# Reading decimal numerals

The numerals that `std::to_chars` and the streams write for natural numbers.
-/

namespace Pans

instance (b : Byte) : Decidable (IsDigit b) := inferInstanceAs (Decidable (_ ∧ _))

theorem decimalDigits_digits (n : Nat) : ∀ b ∈ decimalDigits n, IsDigit b := by
  fun_induction decimalDigits n with
  | case1 n h =>
      intro b hb
      rw [List.mem_singleton.mp hb, IsDigit, digit_toNat h]
      omega
  | case2 n h ih =>
      intro b hb
      rcases List.mem_append.mp hb with hb | hb
      · exact ih b hb
      · rw [List.mem_singleton.mp hb, IsDigit, digit_toNat (Nat.mod_lt n (by decide))]
        omega

theorem digitRank_digit {n : Nat} (h : n < 10) : digitRank (digit n) = n := by
  rw [digitRank, digit_toNat h, Nat.add_sub_cancel_left]

theorem decimalValue_decimalDigits (n : Nat) : decimalValue (decimalDigits n) = n := by
  fun_induction decimalDigits n with
  | case1 n h => simp [decimalValue, Numeral.value, digitRank_digit h]
  | case2 n h ih =>
      rw [decimalValue, Numeral.value_append_digit, ← decimalValue, ih, digitRank_digit (Nat.mod_lt n (by decide))]
      omega

theorem not_mem_decimalDigits {c : Byte} (hc : ¬IsDigit c) (n : Nat) : c ∉ decimalDigits n :=
  fun h => hc (decimalDigits_digits n c h)

theorem numeral_natCast (n : Nat) : numeral n = decimalDigits n := by
  rw [numeral, if_neg (Int.not_lt.mpr (Int.natCast_nonneg n)), Int.natAbs_natCast]

/-- Only the numeral that is written for a number is read. -/
def readDecimal (bound : Nat) (text : Bytes) : Option Nat :=
  if decimalDigits (decimalValue text) = text ∧ decimalValue text < bound then some (decimalValue text) else none

theorem readDecimal_eq_some_iff {bound n : Nat} {text : Bytes} :
    readDecimal bound text = some n ↔ n < bound ∧ text = decimalDigits n := by
  unfold readDecimal
  constructor
  · intro h
    split at h <;> cases h
    rename_i hnumeral
    exact ⟨hnumeral.2, hnumeral.1.symm⟩
  · rintro ⟨hn, rfl⟩
    rw [decimalValue_decimalDigits]
    exact if_pos ⟨rfl, hn⟩

def decimalReading (bound : Nat) : Reading Bytes Nat where
  Valid n := n < bound
  write := decimalDigits
  read := readDecimal bound
  read_eq_some_iff := readDecimal_eq_some_iff

end Pans
