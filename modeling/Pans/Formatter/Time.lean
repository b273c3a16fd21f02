import Mathlib.Data.Prod.Lex
import Pans.Formatter.Format
import Pans.Lib.Numeral

/-!
# The time that `%d` and `%u` show

The two items divide the same count of nanoseconds, one into seconds and one into microseconds.
-/

namespace Pans

def IsDigit (b : Byte) : Prop := 48 ≤ b.toNat ∧ b.toNat ≤ 57

def digitRank (b : Byte) : Nat := b.toNat - 48

def decimalValue (text : Bytes) : Nat := Numeral.value 10 digitRank text

namespace LogRecordView

/-- The second that `localtime_r` is given, and the six digits behind it. -/
def shownTime (record : LogRecordView) : Lex (Int × Bytes) := toLex (record.currentSecond, microsecondDigits record)

/-- The time in whole microseconds, as `duration_cast` rounds it. -/
def totalMicroseconds (record : LogRecordView) : Int := record.timestamp.toInt.tdiv 1000

/-- Before the epoch, and not a whole second when rounded to microseconds. -/
def InNegativeSecond (record : LogRecordView) : Prop :=
  record.timestamp.toInt < 0 ∧ ¬1000000 ∣ record.totalMicroseconds

instance (record : LogRecordView) : Decidable record.InNegativeSecond := inferInstanceAs (Decidable (_ ∧ _))

end LogRecordView

/-! ## Digits -/

theorem digit_toNat {n : Nat} (h : n < 10) : (digit n).toNat = 48 + n := by
  rw [digit, UInt8.toNat_ofNat']
  omega

theorem digits_ranked : Numeral.Digits 10 digitRank IsDigit where
  lt_base := by
    intro d hd
    simp only [IsDigit, digitRank] at *
    omega
  lt_iff := by
    intro d e hd he
    rw [UInt8.lt_iff_toNat_lt]
    simp only [IsDigit, digitRank] at *
    omega
  rank_inj := by
    intro d e hd he h
    rw [← UInt8.toNat_inj]
    simp only [IsDigit, digitRank] at *
    omega

theorem digitsLoop_eq (index : Nat) (remaining : UInt32) (digits : Bytes) :
    ∃ text, digitsLoop index remaining digits = text ++ digits ∧ text.length = index ∧ (∀ b ∈ text, IsDigit b) ∧
      decimalValue text = remaining.toNat % 10 ^ index := by
  induction index generalizing remaining digits with
  | zero => exact ⟨[], rfl, rfl, by simp, by simp [decimalValue, Numeral.value, Nat.mod_one]⟩
  | succ index ih =>
      have hlast : (remaining % 10).toNat = remaining.toNat % 10 := UInt32.toNat_mod _ _
      have hrest : (remaining / 10).toNat = remaining.toNat / 10 := UInt32.toNat_div _ _
      have hdigit := digit_toNat (Nat.mod_lt remaining.toNat (by decide : 0 < 10))
      obtain ⟨text, hloop, hlength, hdigits, hvalue⟩ := ih (remaining / 10) (digit (remaining % 10).toNat :: digits)
      refine ⟨text ++ [digit (remaining % 10).toNat], ?_, ?_, ?_, ?_⟩
      · rw [digitsLoop, hloop, List.append_assoc, List.singleton_append]
      · rw [List.length_append, List.length_singleton, hlength]
      · rw [List.forall_mem_append]
        refine ⟨hdigits, ?_⟩
        rw [List.forall_mem_singleton, hlast, IsDigit, hdigit]
        omega
      · have hrank : digitRank (digit (remaining % 10).toNat) = remaining.toNat % 10 := by
          rw [digitRank, hlast, hdigit, Nat.add_sub_cancel_left]
        rw [decimalValue, Numeral.value_append_digit, ← decimalValue, hvalue, hrest, hrank, Nat.pow_succ,
          Nat.mul_comm (10 ^ index) 10, Nat.mod_mul, Nat.mul_comm, Nat.add_comm]

/-! ## Division -/

theorem tdiv_of_neg {t : Int} (k : Int) (h : t < 0) : t.tdiv k = -((-t) / k) := by
  rw [← Int.neg_neg t, Int.neg_tdiv, Int.tdiv_eq_ediv_of_nonneg (by omega), Int.neg_neg]

/-- The correction turns the truncated remainder into the floored one. -/
theorem tmod_corrected (u : Int) :
    (if u.tmod 1000000 < 0 then u.tmod 1000000 + 1000000 else u.tmod 1000000) = u % 1000000 := by
  rw [Int.tmod_eq_emod]
  split <;> split <;> omega

theorem microsecondDigits_spec (record : LogRecordView) :
    (microsecondDigits record).length = 6 ∧ (∀ b ∈ microsecondDigits record, IsDigit b) ∧
      (decimalValue (microsecondDigits record) : Int) = record.totalMicroseconds % 1000000 := by
  obtain ⟨text, hloop, hlength, hdigits, hvalue⟩ :=
    digitsLoop_eq 6 (UInt32.ofNat (record.totalMicroseconds % 1000000).toNat) []
  have heq : microsecondDigits record = text := by
    rw [microsecondDigits, ← LogRecordView.totalMicroseconds]
    simp only [tmod_corrected]
    rw [hloop, List.append_nil]
  have hsmall : (record.totalMicroseconds % 1000000).toNat < 2 ^ 32 := by omega
  rw [UInt32.toNat_ofNat_of_lt' hsmall] at hvalue
  rw [heq]
  refine ⟨hlength, hdigits, ?_⟩
  rw [hvalue]
  omega

/-- The two items together count microseconds, but one second too many inside a second before the epoch. -/
theorem shownMicroseconds_eq (record : LogRecordView) :
    record.currentSecond * 1000000 + decimalValue (microsecondDigits record) =
      record.totalMicroseconds + if record.InNegativeSecond then 1000000 else 0 := by
  have hsecond : record.currentSecond = record.timestamp.toInt.tdiv 1000000000 := rfl
  have hmicros : record.totalMicroseconds = record.timestamp.toInt.tdiv 1000 := rfl
  rw [(microsecondDigits_spec record).2.2]
  rcases Int.lt_or_le record.timestamp.toInt 0 with h | h
  · rw [tdiv_of_neg _ h] at hsecond hmicros
    split <;> simp only [LogRecordView.InNegativeSecond] at * <;> omega
  · rw [Int.tdiv_eq_ediv_of_nonneg h] at hsecond hmicros
    rw [if_neg fun hnegative => Int.not_lt.mpr h hnegative.1]
    omega

/-- Rounding down to microseconds, and rounding towards zero with the second too many. -/
theorem add_second_eq_floor_iff (record : LogRecordView) :
    record.totalMicroseconds + (if record.InNegativeSecond then 1000000 else 0) = record.timestamp.toInt / 1000 ↔
      0 ≤ record.timestamp.toInt ∨ 1000000000 ∣ record.timestamp.toInt := by
  have hmicros : record.totalMicroseconds = record.timestamp.toInt.tdiv 1000 := rfl
  rcases Int.lt_or_le record.timestamp.toInt 0 with h | h
  · rw [tdiv_of_neg _ h] at hmicros
    split <;> simp only [LogRecordView.InNegativeSecond] at * <;> omega
  · rw [Int.tdiv_eq_ediv_of_nonneg h] at hmicros
    rw [if_neg fun hnegative => Int.not_lt.mpr h hnegative.1]
    omega

/-- What is shown is ordered as seconds and digits are, read as one number. -/
theorem shownTime_le_iff (record later : LogRecordView) :
    record.shownTime ≤ later.shownTime ↔
      record.currentSecond * 1000000 + decimalValue (microsecondDigits record) ≤
        later.currentSecond * 1000000 + decimalValue (microsecondDigits later) := by
  obtain ⟨hlength, hdigits, hvalue⟩ := microsecondDigits_spec record
  obtain ⟨hlength', hdigits', hvalue'⟩ := microsecondDigits_spec later
  have htext : microsecondDigits record ≤ microsecondDigits later ↔
      decimalValue (microsecondDigits record) ≤ decimalValue (microsecondDigits later) :=
    Numeral.le_iff_value_le digits_ranked hdigits hdigits' (hlength.trans hlength'.symm)
  rw [LogRecordView.shownTime, LogRecordView.shownTime, Prod.Lex.toLex_le_toLex]
  simp only [htext]
  omega

end Pans
