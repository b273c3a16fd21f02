import Pans.Strings.Lemmas.Utf8

/-!
# The conversions as translations between codes

UTF-8, UTF-16 and UTF-32 are three codes of the scalar values, read and written by the functions of the
converter. Each loop of the converter is a translation from one of them to another.
-/

namespace Pans

namespace StringUtils

/-! ## UTF-8 -/

theorem appendUtf8_ne_nil (output : Bytes) (c : UInt32) : appendUtf8 output c ≠ [] := by
  unfold appendUtf8
  split
  · simp
  split
  · simp
  split <;> simp

theorem decodeUtf8CodePoint_iff {text : Bytes} {offset n : Nat} {v c : UInt32} (h : offset < text.length) :
    decodeUtf8CodePoint text offset h v = ⟨true, n, c⟩ ↔
      IsScalar c ∧ text.drop offset = appendUtf8 [] c ++ text.drop n ∧ n = offset + (appendUtf8 [] c).length := by
  rw [decodeUtf8CodePoint_iff_spells h]
  constructor
  · rintro ⟨tail, hsplit, hn, hspells, hscalar⟩
    have hword := (appendUtf8_eq_cons_iff hscalar).mpr hspells
    refine ⟨hscalar, ?_, ?_⟩
    · rw [List.drop_eq_getElem_cons h, hsplit, hword, List.cons_append]
    · rw [hn, hword, List.length_cons]
      omega
  · rintro ⟨hscalar, hsplit, hn⟩
    rw [List.drop_eq_getElem_cons h] at hsplit
    cases hword : appendUtf8 [] c with
    | nil => exact absurd hword (appendUtf8_ne_nil [] c)
    | cons b tail =>
        rw [hword, List.cons_append, List.cons.injEq] at hsplit
        obtain ⟨rfl, hsplit⟩ := hsplit
        rw [hword, List.length_cons] at hn
        exact ⟨tail, hsplit, by omega, (appendUtf8_eq_cons_iff hscalar).mp hword, hscalar⟩

def utf8Dec (text : Bytes) : Option (UInt32 × Bytes) :=
  if h : 0 < text.length then
    let d := decodeUtf8CodePoint text 0 h 0
    if d.ok then some (d.codePoint, text.drop d.offset) else none
  else none

theorem Decoded.eq_of_ok {d : Decoded} (h : d.ok = true) : d = ⟨true, d.offset, d.codePoint⟩ := by
  rw [← h]

theorem utf8Dec_append {c : UInt32} (rest : Bytes) (hc : IsScalar c) :
    utf8Dec (appendUtf8 [] c ++ rest) = some (c, rest) := by
  have hpos : 0 < (appendUtf8 [] c ++ rest).length := by
    have := List.length_pos_of_ne_nil (appendUtf8_ne_nil [] c)
    simp only [List.length_append]
    omega
  have hd := (decodeUtf8CodePoint_iff (v := 0) hpos).mpr
    ⟨hc, by rw [List.drop_left, List.drop_zero], (Nat.zero_add _).symm⟩
  rw [utf8Dec, dif_pos hpos, hd]
  simp

theorem utf8Dec_sound {s rest : Bytes} {c : UInt32} (h : utf8Dec s = some (c, rest)) :
    IsScalar c ∧ s = appendUtf8 [] c ++ rest := by
  simp only [utf8Dec] at h
  split at h
  · rename_i hpos
    split at h
    · rename_i hok
      simp only [Option.some.injEq, Prod.mk.injEq] at h
      obtain ⟨rfl, rfl⟩ := h
      have hd := (decodeUtf8CodePoint_iff hpos).mp (Decoded.eq_of_ok hok)
      exact ⟨hd.1, by simpa using hd.2.1⟩
    · cases h
  · cases h

def utf8 : SymbolCode UInt32 Byte where
  Valid := IsScalar
  enc := appendUtf8 []
  dec := utf8Dec
  enc_ne_nil := fun _ => appendUtf8_ne_nil [] _
  dec_enc := utf8Dec_append
  dec_sound := utf8Dec_sound

/-- Reading at an offset is reading the front of what is left. -/
theorem utf8_dec_drop {text : Bytes} {offset : Nat} (h : offset < text.length) :
    utf8.dec (text.drop offset) =
      if (decodeUtf8CodePoint text offset h 0).ok then
        some ((decodeUtf8CodePoint text offset h 0).codePoint,
          text.drop (decodeUtf8CodePoint text offset h 0).offset)
      else none := by
  split
  · rename_i hok
    obtain ⟨hc, hsplit, _⟩ := (decodeUtf8CodePoint_iff h).mp (Decoded.eq_of_ok hok)
    rw [hsplit]
    exact utf8.dec_enc _ hc
  · rename_i hbad
    cases hdec : utf8.dec (text.drop offset) with
    | none => rfl
    | some p =>
        obtain ⟨c, rest⟩ := p
        obtain ⟨hc, hs⟩ := utf8.dec_sound hdec
        have hrest : rest = text.drop (offset + (appendUtf8 [] c).length) := by
          rw [← List.drop_drop, hs]
          exact List.drop_left.symm
        have hd := (decodeUtf8CodePoint_iff (v := 0) h).mpr ⟨hc, by rw [← hrest]; exact hs, rfl⟩
        rw [hd] at hbad
        exact absurd rfl hbad

/-! ## UTF-32 -/

def utf32Dec : List UInt32 → Option (UInt32 × List UInt32)
  | [] => none
  | c :: text =>
      if c ≤ maxUnicodeCodePoint ∧ !isHighSurrogate c ∧ !isLowSurrogate c then some (c, text) else none

theorem utf32_check (c : UInt32) :
    (c ≤ maxUnicodeCodePoint ∧ !isHighSurrogate c ∧ !isLowSurrogate c) ↔ IsScalar c := by
  simp [isScalar_iff]

def utf32 : SymbolCode UInt32 UInt32 where
  Valid := IsScalar
  enc := pushUtf32 []
  dec := utf32Dec
  enc_ne_nil := by simp [pushUtf32]
  dec_enc := fun rest hc => if_pos ((utf32_check _).mpr hc)
  dec_sound := by
    intro s c rest h
    cases s with
    | nil => cases h
    | cons c' text =>
        simp only [utf32Dec] at h
        split at h
        · rename_i hc
          cases h
          exact ⟨(utf32_check _).mp hc, rfl⟩
        · cases h

/-! ## UTF-16 -/

def utf16Dec : List UInt16 → Option (UInt32 × List UInt16)
  | [] => none
  | unit :: text =>
      if isHighSurrogate unit.toUInt32 then
        match text with
        | [] => none
        | next :: text =>
            if isLowSurrogate next.toUInt32 then some (joinSurrogates unit.toUInt32 next.toUInt32, text) else none
      else if !isLowSurrogate unit.toUInt32 then some (unit.toUInt32, text)
      else none

theorem isHighSurrogate_iff (u : UInt16) : isHighSurrogate u.toUInt32 = true ↔ IsHigh u := by
  simp [isHighSurrogate, IsHigh, highSurrogateFirst, highSurrogateLast, UInt32.le_iff_toNat_le]

theorem isLowSurrogate_iff (u : UInt16) : isLowSurrogate u.toUInt32 = true ↔ IsLow u := by
  simp [isLowSurrogate, IsLow, lowSurrogateFirst, lowSurrogateLast, UInt32.le_iff_toNat_le]

theorem joinSurrogates_toNat {u v : UInt16} (hu : IsHigh u) (hv : IsLow v) :
    (joinSurrogates u.toUInt32 v.toUInt32).toNat =
      0x10000 + (u.toNat - 0xD800) * 0x400 + (v.toNat - 0xDC00) := by
  have hhigh : (u.toUInt32 - highSurrogateFirst).toNat = u.toNat - 0xD800 := by
    rw [UInt32.toNat_sub_of_le _ _ (UInt32.le_iff_toNat_le.mpr (show highSurrogateFirst.toNat ≤ u.toNat from hu.1))]
    rfl
  have hlow : (v.toUInt32 - lowSurrogateFirst).toNat = v.toNat - 0xDC00 := by
    rw [UInt32.toNat_sub_of_le _ _ (UInt32.le_iff_toNat_le.mpr (show lowSurrogateFirst.toNat ≤ v.toNat from hv.1))]
    rfl
  obtain ⟨hu1, hu2⟩ := hu
  obtain ⟨hv1, hv2⟩ := hv
  rw [joinSurrogates, UInt32.toNat_add, UInt32.toNat_add, UInt32.toNat_shiftLeft, hhigh, hlow,
    Nat.shiftLeft_eq, show (10 : UInt32).toNat % 32 = 10 from rfl, show (0x10000 : UInt32).toNat = 0x10000 from rfl]
  omega

theorem pushUtf16_toNat {c : UInt32} (hc : IsScalar c) :
    (pushUtf16 [] c).map UInt16.toNat =
      if c.toNat < 0x10000 then [c.toNat]
      else [0xD800 + (c.toNat - 0x10000) / 0x400, 0xDC00 + (c.toNat - 0x10000) % 0x400] := by
  have hle := hc.1
  have he : (c ≤ 0xFFFF) = (c.toNat < 0x10000) := by simp [UInt32.le_iff_toNat_le]; omega
  simp only [pushUtf16, he, List.nil_append]
  split
  · simp only [List.map_cons, List.map_nil, UInt32.toNat_toUInt16, List.cons.injEq, and_true]
    omega
  · rename_i hlarge
    have hsub : (c - 0x10000).toNat = c.toNat - 0x10000 := by
      rw [UInt32.toNat_sub_of_le _ _ (UInt32.le_iff_toNat_le.mpr (by simpa using hlarge))]
      rfl
    have hhigh : ((c - 0x10000) >>> 10).toNat = (c.toNat - 0x10000) / 0x400 := by
      rw [UInt32.toNat_shiftRight, hsub, Nat.shiftRight_eq_div_pow]
      rfl
    have hlow : ((c - 0x10000) &&& 0x3FF).toNat = (c.toNat - 0x10000) % 0x400 := by
      rw [UInt32.toNat_and, hsub]
      exact (BitField.and_mask (c.toNat - 0x10000) 10 :)
    simp only [List.map_cons, List.map_nil, UInt32.toNat_toUInt16, UInt32.toNat_add, hhigh, hlow,
      highSurrogateFirst, lowSurrogateFirst, UInt32.reduceToNat, List.cons.injEq, and_true]
    omega

theorem utf16Dec_unit {u : UInt16} (text : List UInt16) (hhigh : ¬IsHigh u) (hlow : ¬IsLow u) :
    utf16Dec (u :: text) = some (u.toUInt32, text) := by
  rw [← isHighSurrogate_iff] at hhigh
  rw [← isLowSurrogate_iff] at hlow
  simp [utf16Dec, hhigh, hlow]

theorem utf16Dec_pair {u v : UInt16} (text : List UInt16) (hu : IsHigh u) (hv : IsLow v) :
    utf16Dec (u :: v :: text) = some (joinSurrogates u.toUInt32 v.toUInt32, text) := by
  rw [← isHighSurrogate_iff] at hu
  rw [← isLowSurrogate_iff] at hv
  simp [utf16Dec, hu, hv]

theorem utf16Dec_cases {s rest : List UInt16} {c : UInt32} (h : utf16Dec s = some (c, rest)) :
    (∃ u, s = u :: rest ∧ ¬IsHigh u ∧ ¬IsLow u ∧ c = u.toUInt32) ∨
    (∃ u v, s = u :: v :: rest ∧ IsHigh u ∧ IsLow v ∧ c = joinSurrogates u.toUInt32 v.toUInt32) := by
  unfold utf16Dec at h
  split at h
  · cases h
  rename_i u text
  split at h
  · rename_i hu
    split at h
    · cases h
    · rename_i v text
      split at h
      · rename_i hv
        cases h
        exact .inr ⟨u, v, rfl, (isHighSurrogate_iff u).mp hu, (isLowSurrogate_iff v).mp hv, rfl⟩
      · cases h
  · rename_i hu
    split at h
    · rename_i hl
      cases h
      refine .inl ⟨u, rfl, fun hhigh => hu ((isHighSurrogate_iff u).mpr hhigh), fun hlow => ?_, rfl⟩
      simp [(isLowSurrogate_iff u).mpr hlow] at hl
    · cases h

theorem pushUtf16_eq_iff {c : UInt32} {word : List UInt16} (hc : IsScalar c) :
    pushUtf16 [] c = word ↔
      word.map UInt16.toNat =
        if c.toNat < 0x10000 then [c.toNat]
        else [0xD800 + (c.toNat - 0x10000) / 0x400, 0xDC00 + (c.toNat - 0x10000) % 0x400] := by
  have hinj : Function.Injective (List.map UInt16.toNat) :=
    List.map_injective_iff.mpr fun _ _ => UInt16.toNat_inj.mp
  rw [← hinj.eq_iff, pushUtf16_toNat hc, eq_comm]

theorem pushUtf16_unit {u : UInt16} (hhigh : ¬IsHigh u) (hlow : ¬IsLow u) :
    IsScalar u.toUInt32 ∧ pushUtf16 [] u.toUInt32 = [u] := by
  have hu := u.toNat_lt
  have hscalar : IsScalar u.toUInt32 := by
    simp only [IsScalar, IsHigh, IsLow, UInt16.toNat_toUInt32] at *
    omega
  exact ⟨hscalar, (pushUtf16_eq_iff hscalar).mpr (by simp [hu])⟩

theorem pushUtf16_pair {u v : UInt16} (hu : IsHigh u) (hv : IsLow v) :
    IsScalar (joinSurrogates u.toUInt32 v.toUInt32) ∧
      pushUtf16 [] (joinSurrogates u.toUInt32 v.toUInt32) = [u, v] := by
  have hvalue := joinSurrogates_toNat hu hv
  obtain ⟨hu1, hu2⟩ := hu
  obtain ⟨hv1, hv2⟩ := hv
  have hscalar : IsScalar (joinSurrogates u.toUInt32 v.toUInt32) := by
    simp only [IsScalar]
    omega
  refine ⟨hscalar, (pushUtf16_eq_iff hscalar).mpr ?_⟩
  rw [if_neg (by omega), hvalue]
  simp only [List.map_cons, List.map_nil, List.cons.injEq, and_true]
  omega

/-- A scalar value is one unit, or a pair of surrogates. -/
theorem pushUtf16_cases {c : UInt32} (hc : IsScalar c) :
    (∃ u, pushUtf16 [] c = [u] ∧ ¬IsHigh u ∧ ¬IsLow u ∧ u.toUInt32 = c) ∨
    (∃ u v, pushUtf16 [] c = [u, v] ∧ IsHigh u ∧ IsLow v ∧ joinSurrogates u.toUInt32 v.toUInt32 = c) := by
  have hword := (pushUtf16_eq_iff hc).mp rfl
  obtain ⟨hmax, hsurrogate⟩ := hc
  split at hword
  · simp only [List.map_eq_cons_iff, List.map_eq_nil_iff] at hword
    obtain ⟨u, _, he, hu, rfl⟩ := hword
    refine .inl ⟨u, he, ?_, ?_, UInt32.toNat_inj.mp hu⟩ <;>
      simp only [IsHigh, IsLow] <;> omega
  · simp only [List.map_eq_cons_iff, List.map_eq_nil_iff] at hword
    obtain ⟨u, _, he, hu, v, _, rfl, hv, rfl⟩ := hword
    have hhigh : IsHigh u := by
      simp only [IsHigh]
      omega
    have hlow : IsLow v := by
      simp only [IsLow]
      omega
    refine .inr ⟨u, v, he, hhigh, hlow, UInt32.toNat_inj.mp ?_⟩
    rw [joinSurrogates_toNat hhigh hlow]
    omega

def utf16 : SymbolCode UInt32 UInt16 where
  Valid := IsScalar
  enc := pushUtf16 []
  dec := utf16Dec
  enc_ne_nil := by
    intro c hc
    rcases pushUtf16_cases hc with ⟨u, hword, _⟩ | ⟨u, v, hword, _⟩ <;> simp [hword]
  dec_enc := by
    intro c rest hc
    rcases pushUtf16_cases hc with ⟨u, hword, hhigh, hlow, rfl⟩ | ⟨u, v, hword, hu, hv, rfl⟩
    · rw [hword]
      exact utf16Dec_unit rest hhigh hlow
    · rw [hword]
      exact utf16Dec_pair rest hu hv
  dec_sound := by
    intro s c rest h
    rcases utf16Dec_cases h with ⟨u, rfl, hhigh, hlow, rfl⟩ | ⟨u, v, rfl, hu, hv, rfl⟩
    · obtain ⟨hscalar, hword⟩ := pushUtf16_unit hhigh hlow
      exact ⟨hscalar, by rw [hword]; rfl⟩
    · obtain ⟨hscalar, hword⟩ := pushUtf16_pair hu hv
      exact ⟨hscalar, by rw [hword]; rfl⟩

/-! ## The loops -/

theorem wideLoop32_eq (result : Bytes) (text : List UInt32) :
    wideLoop32 result text = (utf32.translate utf8 text).map (result ++ ·) := by
  induction text generalizing result with
  | nil => simp [wideLoop32]
  | cons c text ih =>
      simp only [wideLoop32]
      split
      · rename_i hc
        have hdec : utf32.dec (c :: text) = some (c, text) := if_pos hc
        rw [ih, appendUtf8_eq_append, utf32.translate_of_dec utf8 result hdec]
        rfl
      · rename_i hc
        have hdec : utf32.dec (c :: text) = none := if_neg hc
        rw [utf32.translate_of_dec_none utf8 (List.cons_ne_nil _ _) hdec, Option.map_none]

theorem wideLoop16_eq (result : Bytes) (text : List UInt16) :
    wideLoop16 result text = (utf16.translate utf8 text).map (result ++ ·) := by
  fun_induction wideLoop16 result text with
  | case1 result => simp
  | case2 result unit codePoint hu =>
      have hdec : utf16.dec [unit] = none := if_pos hu
      rw [utf16.translate_of_dec_none utf8 (List.cons_ne_nil _ _) hdec, Option.map_none]
  | case3 result unit codePoint hu next text low hlow ih =>
      have hdec : utf16.dec (unit :: next :: text) = some (joinSurrogates codePoint low, text) :=
        (if_pos hu).trans (if_pos hlow)
      rw [ih, appendUtf8_eq_append, utf16.translate_of_dec utf8 result hdec]
      rfl
  | case4 result unit codePoint hu next text low hlow =>
      have hdec : utf16.dec (unit :: next :: text) = none := (if_pos hu).trans (if_neg hlow)
      rw [utf16.translate_of_dec_none utf8 (List.cons_ne_nil _ _) hdec, Option.map_none]
  | case5 result unit text codePoint hu hlow ih =>
      have hdec : utf16.dec (unit :: text) = some (codePoint, text) := (if_neg hu).trans (if_pos hlow)
      rw [ih, appendUtf8_eq_append, utf16.translate_of_dec utf8 result hdec]
      rfl
  | case6 result unit text codePoint hu hlow =>
      have hdec : utf16.dec (unit :: text) = none := (if_neg hu).trans (if_neg hlow)
      rw [utf16.translate_of_dec_none utf8 (List.cons_ne_nil _ _) hdec, Option.map_none]

theorem pushUtf16_eq_append (result : List UInt16) (c : UInt32) :
    pushUtf16 result c = result ++ pushUtf16 [] c := by
  simp only [pushUtf16]
  split <;> rfl

theorem narrowLoop_eq {Unit : Type} (D : SymbolCode UInt32 Unit) (push : List Unit → UInt32 → List Unit)
    (hpush : ∀ result c, push result c = result ++ D.enc c) (text : Bytes) (offset : Nat) (result : List Unit) :
    narrowLoop push text offset result = (utf8.translate D (text.drop offset)).map (result ++ ·) := by
  fun_induction narrowLoop push text offset result with
  | case1 offset result h d _ hok ih =>
      have hdec : utf8.dec (text.drop offset) = some (d.codePoint, text.drop d.offset) := by
        rw [utf8_dec_drop h, if_pos hok]
      rw [ih, hpush, utf8.translate_of_dec D result hdec]
  | case2 offset result h d _ hbad =>
      have hdec : utf8.dec (text.drop offset) = none := by rw [utf8_dec_drop h, if_neg hbad]
      have hne : text.drop offset ≠ [] := by simpa using h
      rw [utf8.translate_of_dec_none D hne hdec, Option.map_none]
  | case3 offset result h =>
      rw [List.drop_eq_nil_of_le (by omega)]
      simp

/-! ## The public functions -/

theorem wideLoop32_translate (w : List UInt32) : wideLoop32 [] w = utf32.translate utf8 w := by
  simp [wideLoop32_eq]

theorem wideLoop16_translate (w : List UInt16) : wideLoop16 [] w = utf16.translate utf8 w := by
  simp [wideLoop16_eq]

theorem narrowLoop32_translate (s : Bytes) : narrowLoop pushUtf32 s 0 [] = utf8.translate utf32 s := by
  simp [narrowLoop_eq utf32 pushUtf32 fun _ _ => rfl]

theorem narrowLoop16_translate (s : Bytes) : narrowLoop pushUtf16 s 0 [] = utf8.translate utf16 s := by
  simp [narrowLoop_eq utf16 pushUtf16 pushUtf16_eq_append]

theorem utf32_words (cs : List UInt32) : cs.flatMap utf32.enc = cs := List.flatMap_singleton' cs

end StringUtils

end Pans
