import Pans.Strings.Access
import Pans.Strings.Lemmas.Codec

/-!
# What the decoder accesses

Each function with its accesses does what the function without them does, and every access is in range.
-/

namespace Pans

namespace StringUtils

open Recorded

theorem addSize_one {n : Nat} {text : Chars} (h : n ≤ text.val.length) : addSize n 1 = n + 1 :=
  addSize_eq (Nat.lt_of_le_of_lt h text.property) (by decide)

theorem readByte_safe {text : Bytes} {index : Nat} (h : index < text.length) :
    (readByte text index).Safe (Access.InRange text) (· = text[index]) := by
  rw [readByte, List.getElem?_eq_getElem h]
  exact safe_operation (P := (Access.InRange text)) h rfl

theorem subtractSize_safe {text : Chars} {offset : Nat} (h : offset ≤ text.val.length) :
    (subtractSize text.val.length offset).Safe (Access.InRange text) (· = text.val.length - offset) := by
  have hsmall := text.property
  refine safe_operation (P := (Access.InRange text)) h ?_
  simp only [objectLimit] at hsmall
  omega

theorem shiftLeft6_safe {text : Bytes} {value : UInt32} (h : value.toNat * 2 ^ 6 < 2 ^ 32) :
    (shiftLeft6 value).Safe (Access.InRange text) (· = value <<< 6) :=
  safe_operation (P := (Access.InRange text)) h rfl

theorem runContinuations_safe {text : Chars} {offset count : Nat} {v : UInt32} (h : offset + count ≤ text.val.length)
    (hv : (v.toNat + 1) * 64 ^ count ≤ 2 ^ 32) :
    (runContinuations text count offset v).Safe (Access.InRange text)
      (· = continuationLoop text.val offset v count h) := by
  induction count generalizing offset v with
  | zero => exact safe_pure rfl
  | succ count ih =>
      have hlt : offset < text.val.length := by omega
      obtain ⟨hsmall, hnext⟩ := continuation_bounds text.val[offset] hv
      rw [runContinuations, continuationLoop]
      refine (readByte_safe hlt).bind ?_
      rintro _ rfl
      simp only [addSize_one (Nat.le_of_lt hlt)]
      split
      · exact safe_pure rfl
      · refine (shiftLeft6_safe (by omega)).bind ?_
        rintro _ rfl
        exact ih (by omega) hnext

theorem runRest_safe {text : Chars} {offset count : Nat} {v minimum : UInt32} (hle : offset ≤ text.val.length)
    (hv : (v.toNat + 1) * 64 ^ count ≤ 2 ^ 32) :
    (runRest text offset v minimum count).Safe (Access.InRange text)
      (· = decodeRest text.val offset hle v minimum count) := by
  rw [runRest, decodeRest]
  refine (subtractSize_safe hle).bind ?_
  rintro _ rfl
  split
  · exact safe_pure rfl
  · refine (runContinuations_safe (by omega) hv).bind ?_
    rintro _ rfl
    exact safe_pure rfl

theorem runDecode_safe {text : Chars} {offset : Nat} (h : offset < text.val.length) (v : UInt32) :
    (runDecode text offset v).Safe (Access.InRange text) (· = decodeUtf8CodePoint text.val offset h v) := by
  have hb := (text.val[offset]).toNat_lt
  have h5 := lead_payload text.val[offset] 5 (by decide)
  have h4 := lead_payload text.val[offset] 4 (by decide)
  have h3 := lead_payload text.val[offset] 3 (by decide)
  rw [runDecode, decodeUtf8CodePoint]
  refine (readByte_safe h).bind ?_
  rintro _ rfl
  simp only [addSize_one (Nat.le_of_lt h)]
  split
  · exact safe_pure rfl
  split
  · refine runRest_safe h ?_
    rw [show (text.val[offset].toUInt32 &&& 0x1F).toNat = _ from h5]
    omega
  split
  · refine runRest_safe h ?_
    rw [show (text.val[offset].toUInt32 &&& 0x0F).toNat = _ from h4]
    omega
  split
  · refine runRest_safe h ?_
    rw [show (text.val[offset].toUInt32 &&& 0x07).toNat = _ from h3]
    omega
  · exact safe_pure rfl

/-- Each turn of the loop moves on by a byte at least, so one more fuel than there are bytes is enough. -/
theorem runNarrowLoop_safe {Unit : Type} (push : List Unit → UInt32 → List Unit) {text : Chars} (fuel offset : Nat)
    (result : List Unit) (hle : offset ≤ text.val.length) (hfuel : text.val.length < fuel + offset) :
    (runNarrowLoop push text fuel offset result).Safe (Access.InRange text)
      (· = narrowLoop push text.val offset result) := by
  induction fuel generalizing offset result with
  | zero => omega
  | succ fuel ih =>
      rw [runNarrowLoop, narrowLoop]
      split
      · rename_i hlt
        have hoffset := decodeUtf8CodePoint_offset text.val offset hlt 0
        refine (runDecode_safe hlt 0).bind ?_
        rintro _ rfl
        simp only
        split
        · exact ih _ _ hoffset.2.2 (by omega)
        · exact safe_pure rfl
      · exact safe_pure rfl

end StringUtils

end Pans
