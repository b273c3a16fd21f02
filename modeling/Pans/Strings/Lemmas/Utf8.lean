import Mathlib.Tactic.Ring
import Pans.Lib.BitField
import Pans.Lib.Codec
import Pans.Strings.Convert
import Pans.Strings.Unicode

/-!
# The UTF-8 code of the converter

`appendUtf8` and `decodeUtf8CodePoint` in terms of numbers, and the two as a self-delimiting code.
-/

namespace Pans

namespace StringUtils

/-! ## Scalar values -/

theorem isScalar_iff {c : UInt32} :
    IsScalar c ↔ c ≤ maxUnicodeCodePoint ∧ isHighSurrogate c = false ∧ isLowSurrogate c = false := by
  simp only [IsScalar, isHighSurrogate, isLowSurrogate, maxUnicodeCodePoint, highSurrogateFirst,
    highSurrogateLast, lowSurrogateFirst, lowSurrogateLast, UInt32.le_iff_toNat_le, ge_iff_le,
    Bool.and_eq_false_iff, decide_eq_false_iff_not, UInt32.reduceToNat]
  omega

/-! ## Encoding -/

def utf8Bytes (c : Nat) : List Nat :=
  if c < 0x80 then [c]
  else if c < 0x800 then [0xC0 + c / 64, 0x80 + c % 64]
  else if c < 0x10000 then [0xE0 + c / 4096, 0x80 + c / 64 % 64, 0x80 + c % 64]
  else [0xF0 + c / 262144, 0x80 + c / 4096 % 64, 0x80 + c / 64 % 64, 0x80 + c % 64]

theorem appendUtf8_eq_append (output : Bytes) (c : UInt32) : appendUtf8 output c = output ++ appendUtf8 [] c := by
  unfold appendUtf8
  split
  · rfl
  split
  · rfl
  split <;> rfl

theorem UInt32.toNat_ofNat_small {n : Nat} (h : n < 256) : (UInt32.ofNat n).toNat = n :=
  UInt32.toNat_ofNat_of_lt' (Nat.lt_trans h (by decide))

/-- A lead byte: a marker over the top bits of the code point. -/
theorem toChar_lead (k marker shift : Nat) {c : UInt32} (hm : 2 ^ k ∣ marker) (hs : shift < 32)
    (hc : c.toNat / 2 ^ shift < 2 ^ k) (hk : marker + 2 ^ k ≤ 256) :
    (toChar (UInt32.ofNat marker ||| (c >>> UInt32.ofNat shift))).toNat = marker + c.toNat / 2 ^ shift := by
  have hpos : 0 < 2 ^ k := Nat.two_pow_pos k
  rw [toChar, UInt32.toNat_toUInt8, UInt32.toNat_or, UInt32.toNat_shiftRight,
    UInt32.toNat_ofNat_small (by omega), UInt32.toNat_ofNat_small (by omega),
    Nat.mod_eq_of_lt hs, Nat.shiftRight_eq_div_pow, BitField.or_eq_add k hm hc]
  exact Nat.mod_eq_of_lt (by omega)

/-- A continuation byte: the six payload bits from bit `shift` on. -/
theorem toChar_continuation (shift : Nat) (c : UInt32) (hs : shift < 32) :
    (toChar ((0x80 : UInt32) ||| ((c >>> UInt32.ofNat shift) &&& 0x3F))).toNat =
      0x80 + c.toNat / 2 ^ shift % 64 := by
  rw [toChar, UInt32.toNat_toUInt8, UInt32.toNat_or, UInt32.toNat_and, UInt32.toNat_shiftRight,
    UInt32.toNat_ofNat_small (by omega), Nat.mod_eq_of_lt hs, Nat.shiftRight_eq_div_pow,
    show (0x3F : UInt32).toNat = 2 ^ 6 - 1 from rfl, show (0x80 : UInt32).toNat = 0x80 from rfl,
    BitField.and_mask, BitField.or_eq_add 6 (by decide) (Nat.mod_lt _ (by decide))]
  omega

theorem appendUtf8_toNat {c : UInt32} (hc : c.toNat ≤ 0x10FFFF) :
    (appendUtf8 [] c).map UInt8.toNat = utf8Bytes c.toNat := by
  have h0 : (toChar ((0x80 : UInt32) ||| (c &&& 0x3F))).toNat = 0x80 + c.toNat % 64 := by
    simpa using toChar_continuation 0 c (by decide)
  have h6 : (toChar ((0x80 : UInt32) ||| ((c >>> 6) &&& 0x3F))).toNat = 0x80 + c.toNat / 64 % 64 :=
    toChar_continuation 6 c (by decide)
  have h12 : (toChar ((0x80 : UInt32) ||| ((c >>> 12) &&& 0x3F))).toNat = 0x80 + c.toNat / 4096 % 64 :=
    toChar_continuation 12 c (by decide)
  have e1 : (c ≤ 0x7F) = (c.toNat < 0x80) := by simp [UInt32.le_iff_toNat_le]; omega
  have e2 : (c ≤ 0x7FF) = (c.toNat < 0x800) := by simp [UInt32.le_iff_toNat_le]; omega
  have e3 : (c ≤ 0xFFFF) = (c.toNat < 0x10000) := by simp [UInt32.le_iff_toNat_le]; omega
  unfold appendUtf8 utf8Bytes
  simp only [e1, e2, e3, List.nil_append]
  split
  · simp only [toChar, List.map_cons, List.map_nil, UInt32.toNat_toUInt8]
    congr 1
    omega
  split
  · have hlead := toChar_lead 5 0xC0 6 (c := c) (by decide) (by decide) (by omega) (by decide)
    simpa [h0] using hlead
  split
  · have hlead := toChar_lead 4 0xE0 12 (c := c) (by decide) (by decide) (by omega) (by decide)
    simpa [h0, h6] using hlead
  · have hlead := toChar_lead 3 0xF0 18 (c := c) (by decide) (by decide) (by omega) (by decide)
    simpa [h0, h6, h12] using hlead

theorem appendUtf8_eq_iff {c : UInt32} {word : Bytes} (hc : c.toNat ≤ 0x10FFFF) :
    appendUtf8 [] c = word ↔ word.map UInt8.toNat = utf8Bytes c.toNat := by
  have hinj : Function.Injective (List.map UInt8.toNat) :=
    List.map_injective_iff.mpr fun _ _ => UInt8.toNat_inj.mp
  rw [← hinj.eq_iff, appendUtf8_toNat hc, eq_comm]

theorem appendUtf8_cases {c : UInt32} (hc : c.toNat ≤ 0x10FFFF) :
    (∃ w, appendUtf8 [] c = [w] ∧ c.toNat < 0x80 ∧ w.toNat = c.toNat) ∨
    (∃ w x, appendUtf8 [] c = [w, x] ∧ 0x80 ≤ c.toNat ∧ c.toNat < 0x800 ∧
      w.toNat = 0xC0 + c.toNat / 64 ∧ x.toNat = 0x80 + c.toNat % 64) ∨
    (∃ w x y, appendUtf8 [] c = [w, x, y] ∧ 0x800 ≤ c.toNat ∧ c.toNat < 0x10000 ∧
      w.toNat = 0xE0 + c.toNat / 4096 ∧ x.toNat = 0x80 + c.toNat / 64 % 64 ∧ y.toNat = 0x80 + c.toNat % 64) ∨
    (∃ w x y z, appendUtf8 [] c = [w, x, y, z] ∧ 0x10000 ≤ c.toNat ∧ w.toNat = 0xF0 + c.toNat / 262144 ∧
      x.toNat = 0x80 + c.toNat / 4096 % 64 ∧ y.toNat = 0x80 + c.toNat / 64 % 64 ∧ z.toNat = 0x80 + c.toNat % 64) := by
  have hword := appendUtf8_toNat hc
  unfold utf8Bytes at hword
  split at hword
  · rename_i h1
    simp only [List.map_eq_cons_iff, List.map_eq_nil_iff] at hword
    obtain ⟨w, _, he, hw, rfl⟩ := hword
    exact .inl ⟨w, he, h1, hw⟩
  split at hword
  · rename_i h1 h2
    simp only [List.map_eq_cons_iff, List.map_eq_nil_iff] at hword
    obtain ⟨w, _, he, hw, x, _, rfl, hx, rfl⟩ := hword
    exact .inr (.inl ⟨w, x, he, Nat.not_lt.mp h1, h2, hw, hx⟩)
  split at hword
  · rename_i h1 h2 h3
    simp only [List.map_eq_cons_iff, List.map_eq_nil_iff] at hword
    obtain ⟨w, _, he, hw, x, _, rfl, hx, y, _, rfl, hy, rfl⟩ := hword
    exact .inr (.inr (.inl ⟨w, x, y, he, Nat.not_lt.mp h2, h3, hw, hx, hy⟩))
  · rename_i h1 h2 h3
    simp only [List.map_eq_cons_iff, List.map_eq_nil_iff] at hword
    obtain ⟨w, _, he, hw, x, _, rfl, hx, y, _, rfl, hy, z, _, rfl, hz, rfl⟩ := hword
    exact .inr (.inr (.inr ⟨w, x, y, z, he, Nat.not_lt.mp h3, hw, hx, hy, hz⟩))

/-! ## Decoding -/

def IsContinuation (b : Byte) : Prop := 0x80 ≤ b.toNat ∧ b.toNat ≤ 0xBF

def foldContinuation (value : Nat) (tail : Bytes) : Nat :=
  tail.foldl (fun v b => v * 64 + b.toNat % 64) value

theorem continuation_test (b : Byte) : b.toUInt32 &&& 0xC0 ≠ 0x80 ↔ ¬IsContinuation b := by
  have hb := b.toNat_lt
  rw [Ne, ← UInt32.toNat_inj, UInt32.toNat_and, UInt8.toNat_toUInt32,
    show (0xC0 : UInt32).toNat = (2 ^ 2 - 1) <<< 6 from rfl, BitField.and_field,
    show (0x80 : UInt32).toNat = 128 from rfl, IsContinuation]
  omega

/-- No bit is lost in the shift while the value is below 2^26. -/
theorem continuation_value {v : UInt32} (b : Byte) (hv : v.toNat < 2 ^ 26) :
    ((v <<< 6) ||| (b.toUInt32 &&& 0x3F)).toNat = v.toNat * 64 + b.toNat % 64 := by
  have hlow : b.toNat % 2 ^ 6 < 2 ^ 6 := Nat.mod_lt _ (by decide)
  have hshift : v.toNat * 2 ^ 6 % 2 ^ 32 = v.toNat * 2 ^ 6 := Nat.mod_eq_of_lt (by omega)
  rw [UInt32.toNat_or, UInt32.toNat_and, UInt32.toNat_shiftLeft, UInt8.toNat_toUInt32,
    show (0x3F : UInt32).toNat = 2 ^ 6 - 1 from rfl, show (6 : UInt32).toNat % 32 = 6 from rfl,
    BitField.and_mask, Nat.shiftLeft_eq, hshift, BitField.or_eq_add 6 (Nat.dvd_mul_left _ _) hlow]
  rfl

/-- While the bound lasts, no bit is lost, and the next value is within the bound for one byte less. -/
theorem continuation_bounds {v : UInt32} {count : Nat} (b : Byte) (hv : (v.toNat + 1) * 64 ^ (count + 1) ≤ 2 ^ 32) :
    v.toNat < 2 ^ 26 ∧ (((v <<< 6) ||| (b.toUInt32 &&& 0x3F)).toNat + 1) * 64 ^ count ≤ 2 ^ 32 := by
  have hpow : 1 ≤ 64 ^ count := Nat.one_le_pow _ _ (by decide)
  rw [Nat.pow_succ] at hv
  have hsmall : v.toNat < 2 ^ 26 := by
    have : (v.toNat + 1) * 1 ≤ (v.toNat + 1) * 64 ^ count := Nat.mul_le_mul_left _ hpow
    have : (v.toNat + 1) * (64 ^ count * 64) = (v.toNat + 1) * 64 ^ count * 64 := by ring
    omega
  have hle : v.toNat * 64 + b.toNat % 64 + 1 ≤ (v.toNat + 1) * 64 := by omega
  refine ⟨hsmall, ?_⟩
  calc _ ≤ (v.toNat + 1) * 64 * 64 ^ count := by
        rw [continuation_value b hsmall]
        exact Nat.mul_le_mul_right _ hle
    _ = (v.toNat + 1) * (64 ^ count * 64) := by ring
    _ ≤ 2 ^ 32 := hv

/-- The loop succeeds exactly on `count` continuation bytes. The bound keeps every shift inside 32 bits. -/
theorem continuationLoop_iff {text : Bytes} {offset count n : Nat} {v c : UInt32}
    (h : offset + count ≤ text.length) (hv : (v.toNat + 1) * 64 ^ count ≤ 2 ^ 32) :
    continuationLoop text offset v count h = ⟨true, n, c⟩ ↔
      ∃ tail, text.drop offset = tail ++ text.drop n ∧ tail.length = count ∧ n = offset + count ∧
        (∀ b ∈ tail, IsContinuation b) ∧ c.toNat = foldContinuation v.toNat tail := by
  induction count generalizing offset v with
  | zero =>
      simp only [continuationLoop, Decoded.mk.injEq, true_and, List.length_eq_zero_iff]
      constructor
      · rintro ⟨rfl, rfl⟩
        exact ⟨[], by simp [foldContinuation]⟩
      · rintro ⟨tail, _, rfl, rfl, _, hc⟩
        exact ⟨rfl, (UInt32.toNat_inj.mp hc).symm⟩
  | succ count ih =>
      have hlt : offset < text.length := by omega
      obtain ⟨hsmall, hnext⟩ := continuation_bounds text[offset] hv
      have hvalue := continuation_value text[offset] hsmall
      rw [List.drop_eq_getElem_cons hlt]
      simp only [continuationLoop]
      by_cases hcont : IsContinuation text[offset]
      · rw [if_neg fun hne => (continuation_test _).mp hne hcont, ih (by omega) hnext, hvalue]
        constructor
        · rintro ⟨tail, hsplit, hlen, rfl, htail, hc⟩
          exact ⟨text[offset] :: tail, by simp [hsplit], by simp [hlen], by omega,
            List.forall_mem_cons.mpr ⟨hcont, htail⟩, hc⟩
        · rintro ⟨tail, hsplit, hlen, rfl, htail, hc⟩
          obtain ⟨b, tail, rfl⟩ := List.exists_cons_of_length_eq_add_one hlen
          simp only [List.cons_append, List.cons.injEq] at hsplit
          obtain ⟨rfl, hsplit⟩ := hsplit
          exact ⟨tail, hsplit, by simpa using hlen, by omega, (List.forall_mem_cons.mp htail).2, hc⟩
      · rw [if_pos ((continuation_test _).mpr hcont)]
        simp only [Decoded.mk.injEq, Bool.false_eq_true, false_and, false_iff, not_exists]
        rintro tail ⟨hsplit, hlen, _, htail, _⟩
        obtain ⟨b, tail, rfl⟩ := List.exists_cons_of_length_eq_add_one hlen
        simp only [List.cons_append, List.cons.injEq] at hsplit
        exact hcont (hsplit.1 ▸ (List.forall_mem_cons.mp htail).1)

/-- The checks after the loop: the value reaches its minimum and is a scalar value. -/
theorem decodeRest_check {d : Decoded} {n : Nat} {minimum c : UInt32} :
    (if d.ok ∧ (d.codePoint < minimum ∨ d.codePoint > maxUnicodeCodePoint ∨
        isHighSurrogate d.codePoint ∨ isLowSurrogate d.codePoint) then { d with ok := false } else d) =
      (⟨true, n, c⟩ : Decoded) ↔
      d = ⟨true, n, c⟩ ∧ minimum.toNat ≤ c.toNat ∧ IsScalar c := by
  rw [isScalar_iff, ← UInt32.le_iff_toNat_le]
  split
  · rename_i hbad
    simp only [Decoded.mk.injEq, Bool.false_eq_true, false_and, false_iff]
    rintro ⟨rfl, hmin, hmax, hhigh, hlow⟩
    simp only [hhigh, hlow, Bool.false_eq_true, or_false, true_and] at hbad
    rcases hbad with hbad | hbad
    · exact UInt32.not_le.mpr hbad hmin
    · exact UInt32.not_le.mpr hbad hmax
  · rename_i hgood
    constructor
    · rintro rfl
      simpa using hgood
    · exact fun h => h.1

theorem decodeRest_iff {text : Bytes} {offset count n : Nat} {hle : offset ≤ text.length}
    {v minimum c : UInt32} (hv : (v.toNat + 1) * 64 ^ count ≤ 2 ^ 32) :
    decodeRest text offset hle v minimum count = ⟨true, n, c⟩ ↔
      ∃ tail, text.drop offset = tail ++ text.drop n ∧ tail.length = count ∧ n = offset + count ∧
        (∀ b ∈ tail, IsContinuation b) ∧ c.toNat = foldContinuation v.toNat tail ∧
        minimum.toNat ≤ c.toNat ∧ IsScalar c := by
  simp only [decodeRest]
  split
  · rename_i hshort
    simp only [Decoded.mk.injEq, Bool.false_eq_true, false_and, false_iff, not_exists]
    rintro tail ⟨hsplit, hlen, _⟩
    have := congrArg List.length hsplit
    simp only [List.length_drop, List.length_append] at this
    omega
  · rw [decodeRest_check, continuationLoop_iff _ hv]
    constructor
    · rintro ⟨⟨tail, hsplit, hlen, hn, htail, hc⟩, hrange⟩
      exact ⟨tail, hsplit, hlen, hn, htail, hc, hrange⟩
    · rintro ⟨tail, hsplit, hlen, hn, htail, hc, hrange⟩
      exact ⟨⟨tail, hsplit, hlen, hn, htail, hc⟩, hrange⟩

/-! ## Lead bytes -/

/-- What a lead byte announces: the number of continuation bytes, its payload, the least value. -/
def lead (b : Byte) : Option (Nat × Nat × Nat) :=
  if b.toNat ≤ 0x7F then some (0, b.toNat, 0)
  else if 0xC2 ≤ b.toNat ∧ b.toNat ≤ 0xDF then some (1, b.toNat % 32, 0x80)
  else if 0xE0 ≤ b.toNat ∧ b.toNat ≤ 0xEF then some (2, b.toNat % 16, 0x800)
  else if 0xF0 ≤ b.toNat ∧ b.toNat ≤ 0xF4 then some (3, b.toNat % 8, 0x10000)
  else none

/-- The lead byte and its tail spell `c`, in the shortest form. -/
def Spells (b : Byte) (tail : Bytes) (c : UInt32) : Prop :=
  ∃ count v minimum, lead b = some (count, v, minimum) ∧ tail.length = count ∧
    (∀ x ∈ tail, IsContinuation x) ∧ c.toNat = foldContinuation v tail ∧ minimum ≤ c.toNat

theorem lead_payload (b : Byte) (k : Nat) (hk : k ≤ 8) :
    (b.toUInt32 &&& UInt32.ofNat (2 ^ k - 1)).toNat = b.toNat % 2 ^ k := by
  have hpow : 2 ^ k ≤ 2 ^ 8 := Nat.pow_le_pow_right (by decide) hk
  rw [UInt32.toNat_and, UInt8.toNat_toUInt32, UInt32.toNat_ofNat_small (by omega), BitField.and_mask]

/-- The branches of the decoder with continuation bytes differ in the numbers only. -/
theorem decodeRest_iff_spells {text : Bytes} {offset count n : Nat} {b : Byte} {hle : offset ≤ text.length}
    {payload minimum c : UInt32} (hlead : lead b = some (count, payload.toNat, minimum.toNat))
    (hbound : (payload.toNat + 1) * 64 ^ count ≤ 2 ^ 32) :
    decodeRest text offset hle payload minimum count = ⟨true, n, c⟩ ↔
      ∃ tail, text.drop offset = tail ++ text.drop n ∧ n = offset + tail.length ∧ Spells b tail c ∧ IsScalar c := by
  rw [decodeRest_iff hbound]
  constructor
  · rintro ⟨tail, hsplit, rfl, hn, htail, hc, hmin, hscalar⟩
    exact ⟨tail, hsplit, hn, ⟨_, _, _, hlead, rfl, htail, hc, hmin⟩, hscalar⟩
  · rintro ⟨tail, hsplit, hn, ⟨count', v', minimum', hlead', hlen, htail, hc, hmin⟩, hscalar⟩
    rw [hlead] at hlead'
    cases hlead'
    exact ⟨tail, hsplit, hlen, by omega, htail, hc, hmin, hscalar⟩

/-- A byte below 0x80 spells itself. -/
theorem spells_ascii {b : Byte} {tail : Bytes} {c : UInt32} (hb : b.toNat ≤ 0x7F) :
    Spells b tail c ↔ tail = [] ∧ c = b.toUInt32 := by
  have hlead : lead b = some (0, b.toNat, 0) := if_pos hb
  constructor
  · rintro ⟨count, v, minimum, hlead', hlen, _, hc, _⟩
    rw [hlead] at hlead'
    cases hlead'
    obtain rfl := List.length_eq_zero_iff.mp hlen
    exact ⟨rfl, UInt32.toNat_inj.mp (hc.trans (UInt8.toNat_toUInt32 b).symm)⟩
  · rintro ⟨rfl, rfl⟩
    exact ⟨0, b.toNat, 0, hlead, rfl, by simp, UInt8.toNat_toUInt32 b, Nat.zero_le _⟩

theorem decodeUtf8CodePoint_iff_spells {text : Bytes} {offset n : Nat} {v c : UInt32}
    (h : offset < text.length) :
    decodeUtf8CodePoint text offset h v = ⟨true, n, c⟩ ↔
      ∃ tail, text.drop (offset + 1) = tail ++ text.drop n ∧ n = offset + 1 + tail.length ∧
        Spells text[offset] tail c ∧ IsScalar c := by
  have hb := (text[offset]).toNat_lt
  have h5 := lead_payload text[offset] 5 (by decide)
  have h4 := lead_payload text[offset] 4 (by decide)
  have h3 := lead_payload text[offset] 3 (by decide)
  simp only [decodeUtf8CodePoint, UInt32.le_iff_toNat_le, ge_iff_le, UInt8.toNat_toUInt32,
    UInt32.reduceToNat]
  split
  · rename_i h1
    simp only [spells_ascii h1, Decoded.mk.injEq, true_and]
    constructor
    · rintro ⟨rfl, rfl⟩
      refine ⟨[], rfl, rfl, ⟨rfl, rfl⟩, ?_⟩
      simp only [IsScalar, UInt8.toNat_toUInt32]
      omega
    · rintro ⟨_, _, rfl, ⟨rfl, rfl⟩, _⟩
      exact ⟨rfl, rfl⟩
  split
  · rename_i h1 h2
    refine decodeRest_iff_spells ?_ ?_
    · rw [lead, if_neg h1, if_pos h2]
      exact congrArg (fun x => some (1, x, 0x80)) h5.symm
    · rw [show (text[offset].toUInt32 &&& 0x1F).toNat = _ from h5]
      omega
  split
  · rename_i h1 h2 h3'
    refine decodeRest_iff_spells ?_ ?_
    · rw [lead, if_neg h1, if_neg h2, if_pos h3']
      exact congrArg (fun x => some (2, x, 0x800)) h4.symm
    · rw [show (text[offset].toUInt32 &&& 0x0F).toNat = _ from h4]
      omega
  split
  · rename_i h1 h2 h3' h4'
    refine decodeRest_iff_spells ?_ ?_
    · rw [lead, if_neg h1, if_neg h2, if_neg h3', if_pos h4']
      exact congrArg (fun x => some (3, x, 0x10000)) h3.symm
    · rw [show (text[offset].toUInt32 &&& 0x07).toNat = _ from h3]
      omega
  · rename_i h1 h2 h3' h4'
    simp only [Decoded.mk.injEq, Bool.false_eq_true, false_and, false_iff, not_exists]
    rintro tail ⟨_, _, ⟨count, v', minimum, hlead, _⟩, _⟩
    simp [lead, h1, h2, h3', h4'] at hlead

theorem spells_appendUtf8 {b : Byte} {tail : Bytes} {c : UInt32} (hc : IsScalar c)
    (he : appendUtf8 [] c = b :: tail) : Spells b tail c := by
  have hdiv12 : c.toNat / 4096 = c.toNat / 64 / 64 := by omega
  have hdiv18 : c.toNat / 262144 = c.toNat / 64 / 64 / 64 := by omega
  have hb := b.toNat_lt
  have hmax := hc.1
  rcases appendUtf8_cases hc.1 with ⟨w, hw, h1, hv⟩ | ⟨w, x, hw, h1, h2, hv, hx⟩ |
    ⟨w, x, y, hw, h1, h2, hv, hx, hy⟩ | ⟨w, x, y, z, hw, h1, hv, hx, hy, hz⟩
  · cases hw.symm.trans he
    exact ⟨0, b.toNat, 0, by rw [lead, if_pos (by omega)], rfl, by simp, hv.symm, Nat.zero_le _⟩
  · cases hw.symm.trans he
    refine ⟨1, _, _, by rw [lead, if_neg (by omega), if_pos (by omega)], rfl, ?_, ?_, by omega⟩
    · simp only [List.forall_mem_singleton, IsContinuation]
      omega
    · simp only [foldContinuation, List.foldl_cons, List.foldl_nil]
      omega
  · cases hw.symm.trans he
    rw [hdiv12] at hv
    refine ⟨2, _, _, by rw [lead, if_neg (by omega), if_neg (by omega), if_pos (by omega)], rfl, ?_, ?_, by omega⟩
    · simp only [List.forall_mem_cons, List.not_mem_nil, false_implies, implies_true, and_true, IsContinuation]
      omega
    · have hb16 : b.toNat % 16 = c.toNat / 64 / 64 := by omega
      have hx64 : x.toNat % 64 = c.toNat / 64 % 64 := by omega
      have hy64 : y.toNat % 64 = c.toNat % 64 := by omega
      simp only [foldContinuation, List.foldl_cons, List.foldl_nil, hb16, hx64, hy64]
      omega
  · cases hw.symm.trans he
    rw [hdiv18] at hv
    rw [hdiv12] at hx
    refine ⟨3, _, _, by rw [lead, if_neg (by omega), if_neg (by omega), if_neg (by omega), if_pos (by omega)],
      rfl, ?_, ?_, by omega⟩
    · simp only [List.forall_mem_cons, List.not_mem_nil, false_implies, implies_true, and_true, IsContinuation]
      omega
    · have hb8 : b.toNat % 8 = c.toNat / 64 / 64 / 64 := by omega
      have hx64 : x.toNat % 64 = c.toNat / 64 / 64 % 64 := by omega
      have hy64 : y.toNat % 64 = c.toNat / 64 % 64 := by omega
      have hz64 : z.toNat % 64 = c.toNat % 64 := by omega
      simp only [foldContinuation, List.foldl_cons, List.foldl_nil, hb8, hx64, hy64, hz64]
      omega

theorem appendUtf8_of_spells {b : Byte} {tail : Bytes} {c : UInt32} (hc : IsScalar c) (h : Spells b tail c) :
    appendUtf8 [] c = b :: tail := by
  have hdiv12 : c.toNat / 4096 = c.toNat / 64 / 64 := by omega
  have hdiv18 : c.toNat / 262144 = c.toNat / 64 / 64 / 64 := by omega
  obtain ⟨count, v, minimum, hlead, hlen, htail, hvalue, hmin⟩ := h
  have hb := b.toNat_lt
  rw [appendUtf8_eq_iff hc.1, utf8Bytes, hdiv12, hdiv18, List.map_cons]
  clear hdiv12 hdiv18
  unfold lead at hlead
  split at hlead
  · cases hlead
    obtain rfl := List.length_eq_zero_iff.mp hlen
    simp only [foldContinuation, List.foldl_nil] at hvalue
    rw [if_pos (by omega), hvalue, List.map_nil]
  split at hlead
  · cases hlead
    obtain ⟨x, rfl⟩ := List.length_eq_one_iff.mp hlen
    simp only [List.forall_mem_singleton, IsContinuation] at htail
    simp only [foldContinuation, List.foldl_cons, List.foldl_nil] at hvalue
    rw [if_neg (by omega), if_pos (by omega)]
    simp only [List.map_cons, List.map_nil, List.cons.injEq, and_true]
    omega
  split at hlead
  · cases hlead
    obtain ⟨x, y, rfl⟩ := List.length_eq_two.mp hlen
    simp only [List.forall_mem_cons, List.not_mem_nil, false_implies, implies_true, and_true, IsContinuation]
      at htail
    simp only [foldContinuation, List.foldl_cons, List.foldl_nil] at hvalue
    rw [if_neg (by omega), if_neg (by omega), if_pos (by omega)]
    simp only [List.map_cons, List.map_nil, List.cons.injEq, and_true]
    omega
  split at hlead
  · cases hlead
    obtain ⟨x, y, z, rfl⟩ := List.length_eq_three.mp hlen
    simp only [List.forall_mem_cons, List.not_mem_nil, false_implies, implies_true, and_true, IsContinuation]
      at htail
    simp only [foldContinuation, List.foldl_cons, List.foldl_nil] at hvalue
    rw [if_neg (by omega), if_neg (by omega), if_neg (by omega)]
    simp only [List.map_cons, List.map_nil, List.cons.injEq, and_true]
    omega
  · cases hlead

/-- The encoder writes exactly the shortest form. -/
theorem appendUtf8_eq_cons_iff {b : Byte} {tail : Bytes} {c : UInt32} (hc : IsScalar c) :
    appendUtf8 [] c = b :: tail ↔ Spells b tail c :=
  ⟨spells_appendUtf8 hc, appendUtf8_of_spells hc⟩

end StringUtils

end Pans
