import Pans.Strings.Lemmas.Access
import Pans.Strings.Lemmas.Allocating
import Pans.Strings.Lemmas.Unicode

/-!
# The string conversions
-/

namespace Pans

namespace StringUtils

theorem wStringToString32_eq (w : List UInt32) :
    wStringToString32 w = (utf32.translate utf8 w).getD [] := by
  rw [wStringToString32, wideLoop32_translate]

theorem stringToWString32_eq (s : Bytes) : stringToWString32 s = (utf8.translate utf32 s).getD [] := by
  rw [stringToWString32, narrowLoop32_translate]

theorem wStringToString16_eq (w : List UInt16) :
    wStringToString16 w = (utf16.translate utf8 w).getD [] := by
  rw [wStringToString16, wideLoop16_translate]

theorem stringToWString16_eq (s : Bytes) : stringToWString16 s = (utf8.translate utf16 s).getD [] := by
  rw [stringToWString16, narrowLoop16_translate]

/-! ## UTF-32 -/

theorem utf32_translate_of_scalars {w : List UInt32} (h : ∀ c ∈ w, IsScalar c) :
    utf32.translate utf8 w = some (w.flatMap utf8.enc) :=
  (utf32.translate_eq_some_iff utf8).mpr ⟨w, h, (utf32_words w).symm, rfl⟩

theorem utf32_translate_eq_none {w : List UInt32} (h : ∃ c ∈ w, ¬IsScalar c) : utf32.translate utf8 w = none := by
  obtain ⟨c, hc, hbad⟩ := h
  cases hs : utf32.translate utf8 w with
  | none => rfl
  | some s =>
      obtain ⟨cs, hcs, rfl, _⟩ := (utf32.translate_eq_some_iff utf8).mp hs
      rw [utf32_words] at hc
      exact absurd (hcs c hc) hbad

theorem utf8_translate_utf32 (s : Bytes) : utf8.translate utf32 s = utf8.decodeAll s := by
  simp only [SymbolCode.translate, utf32_words, Option.map_id']

/-- With a 32-bit `wchar_t`, the two conversions are inverse to each other wherever they succeed, and they
succeed on scalar values only. -/
theorem utf32_round_trip :
    (∀ w : List UInt32,
      ((∀ c ∈ w, IsScalar c) → stringToWString32 (wStringToString32 w) = w) ∧
      ((∃ c ∈ w, ¬IsScalar c) → wStringToString32 w = [])) ∧
    ∀ s : Bytes, (narrowLoop pushUtf32 s 0 []).isSome → wStringToString32 (stringToWString32 s) = s := by
  refine ⟨fun w => ⟨fun h => ?_, fun h => ?_⟩, fun s h => ?_⟩
  · have hs := utf32_translate_of_scalars h
    have hback := (utf32.translate_symm utf8 fun _ => Iff.rfl).mp hs
    rw [wStringToString32_eq, hs, Option.getD_some, stringToWString32_eq, hback, Option.getD_some]
  · rw [wStringToString32_eq, utf32_translate_eq_none h, Option.getD_none]
  · rw [narrowLoop32_translate] at h
    obtain ⟨w, hw⟩ := Option.isSome_iff_exists.mp h
    have hback := (utf8.translate_symm utf32 fun _ => Iff.rfl).mp hw
    rw [stringToWString32_eq, hw, Option.getD_some, wStringToString32_eq, hback, Option.getD_some]

/-- `StringToWString` decodes exactly well-formed UTF-8, to the values of its sequences. -/
theorem stringToWString_accepts_utf8 (s : Bytes) :
    ((narrowLoop pushUtf32 s 0 []).isSome ↔ ∃ seqs, IsUtf8 s seqs) ∧
    (∀ seqs, IsUtf8 s seqs →
      stringToWString32 s = seqs.map (fun bytes => UInt32.ofNat (utf8Value bytes)) ∧
      ∀ bytes ∈ seqs, IsScalar (UInt32.ofNat (utf8Value bytes)) ∧ utf8Value bytes < 2 ^ 32) ∧
    ((¬∃ seqs, IsUtf8 s seqs) → stringToWString32 s = []) := by
  rw [stringToWString32_eq, narrowLoop32_translate, utf8_translate_utf32]
  have hsome : (utf8.decodeAll s).isSome ↔ ∃ seqs, IsUtf8 s seqs := by
    constructor
    · intro h
      obtain ⟨cs, hcs⟩ := Option.isSome_iff_exists.mp h
      exact ⟨_, isUtf8_of_decodeAll hcs⟩
    · rintro ⟨seqs, h⟩
      rw [decodeAll_of_isUtf8 h]
      rfl
  refine ⟨hsome, fun seqs h => ⟨by rw [decodeAll_of_isUtf8 h, Option.getD_some], fun bytes hmem => ?_⟩, fun h => ?_⟩
  · obtain ⟨c, hc, rfl⟩ := scalar_of_isUtf8Sequence (h.1 bytes hmem)
    rw [utf8Value_appendUtf8 hc, UInt32.ofNat_toNat]
    exact ⟨hc, c.toNat_lt⟩
  · rw [← hsome] at h
    rw [Option.not_isSome_iff_eq_none.mp h, Option.getD_none]

/-! ## UTF-16 -/

theorem utf16_translate_of_isUtf16 {w : List UInt16} {cs : List UInt32} (h : IsUtf16 w cs) :
    utf16.translate utf8 w = utf32.translate utf8 cs := by
  have hdecode := decodeAll_utf16_iff.mpr h
  have hcs := (utf16.decodeAll_eq_some_iff.mp hdecode).1
  rw [utf32_translate_of_scalars hcs, SymbolCode.translate, hdecode, Option.map_some]

theorem utf16_translate_isSome {w : List UInt16} : (utf16.translate utf8 w).isSome ↔ IsWellFormedUtf16 w := by
  rw [isWellFormedUtf16_iff, SymbolCode.translate, Option.isSome_map, Option.isSome_iff_exists]
  exact exists_congr fun _ => decodeAll_utf16_iff

/-- With a 16-bit `wchar_t`, the conversions are those of the 32-bit one on the scalar values of the text. -/
theorem utf16_agrees_with_utf32 :
    (∀ w : List UInt16,
      ((wideLoop16 [] w).isSome ↔ IsWellFormedUtf16 w) ∧
      (IsWellFormedUtf16 w → ∃ cs, IsUtf16 w cs) ∧
      (∀ cs, IsUtf16 w cs → (wideLoop32 [] cs).isSome ∧ wStringToString16 w = wStringToString32 cs) ∧
      ((wideLoop16 [] w).isSome → stringToWString16 (wStringToString16 w) = w)) ∧
    ∀ s : Bytes,
      (narrowLoop pushUtf16 s 0 [] = none ↔ narrowLoop pushUtf32 s 0 [] = none) ∧
      ((narrowLoop pushUtf32 s 0 []).isSome → IsUtf16 (stringToWString16 s) (stringToWString32 s)) ∧
      ((narrowLoop pushUtf16 s 0 []).isSome → wStringToString16 (stringToWString16 s) = s) := by
  refine ⟨fun w => ⟨?_, isWellFormedUtf16_iff.mp, fun cs h => ?_, fun h => ?_⟩, fun s => ⟨?_, fun h => ?_, fun h => ?_⟩⟩
  · rw [wideLoop16_translate]
    exact utf16_translate_isSome
  · have hcs := (utf16.decodeAll_eq_some_iff.mp (decodeAll_utf16_iff.mpr h)).1
    rw [wStringToString16_eq, wStringToString32_eq, utf16_translate_of_isUtf16 h, wideLoop32_translate,
      utf32_translate_of_scalars hcs]
    exact ⟨rfl, rfl⟩
  · rw [wideLoop16_translate] at h
    obtain ⟨s, hs⟩ := Option.isSome_iff_exists.mp h
    have hback := (utf16.translate_symm utf8 fun _ => Iff.rfl).mp hs
    rw [wStringToString16_eq, hs, Option.getD_some, stringToWString16_eq, hback, Option.getD_some]
  · rw [narrowLoop16_translate, narrowLoop32_translate, SymbolCode.translate, SymbolCode.translate,
      Option.map_eq_none_iff, Option.map_eq_none_iff]
  · rw [narrowLoop32_translate, utf8_translate_utf32] at h
    obtain ⟨cs, hcs⟩ := Option.isSome_iff_exists.mp h
    rw [stringToWString16_eq, stringToWString32_eq, utf8_translate_utf32, SymbolCode.translate, hcs]
    exact isUtf16_of_scalars (utf8.decodeAll_eq_some_iff.mp hcs).1
  · rw [narrowLoop16_translate] at h
    obtain ⟨w, hw⟩ := Option.isSome_iff_exists.mp h
    have hback := (utf8.translate_symm utf16 fun _ => Iff.rfl).mp hw
    rw [stringToWString16_eq, hw, Option.getD_some, wStringToString16_eq, hback, Option.getD_some]

/-! ## Accesses -/

/-- The decoder reads bytes of the text only, subtracts no larger size and shifts no bit out, and does what it does
without the checks. It moves on, by at most four bytes and not past the end; what it moves over on success is the code
point's encoding. So the loop over a text ends within as many turns as there are bytes. -/
theorem decodeUtf8CodePoint_in_range (text : Chars) :
    (∀ offset (h : offset < text.val.length) codePoint,
      let decoded := decodeUtf8CodePoint text.val offset h codePoint
      (runDecode text offset codePoint).result = some decoded ∧
      (∀ access ∈ (runDecode text offset codePoint).operations, access.InRange text) ∧
      offset < decoded.offset ∧ decoded.offset ≤ offset + 4 ∧ decoded.offset ≤ text.val.length ∧
      (decoded.ok = true → substr text offset (decoded.offset - offset) = appendUtf8 [] decoded.codePoint)) ∧
    ∀ {Unit : Type} (push : List Unit → UInt32 → List Unit),
      let run := runNarrowLoop push text (text.val.length + 1) 0 []
      run.result = some (narrowLoop push text.val 0 []) ∧ ∀ access ∈ run.operations, access.InRange text := by
  refine ⟨fun offset h codePoint => ?_, fun push => ?_⟩
  · obtain ⟨hsafe, _, hresult, rfl⟩ := runDecode_safe h codePoint
    obtain ⟨hlt, hfour, hle⟩ := decodeUtf8CodePoint_offset text.val offset h codePoint
    refine ⟨hresult, hsafe, hlt, hfour, hle, fun hok => ?_⟩
    obtain ⟨_, hsplit, hoffset⟩ := (decodeUtf8CodePoint_iff h).mp (Decoded.eq_of_ok hok)
    rw [substr, hsplit, hoffset, Nat.add_sub_cancel_left, List.take_left]
  · obtain ⟨hsafe, _, hresult, rfl⟩ :=
      runNarrowLoop_safe push (text.val.length + 1) 0 [] (Nat.zero_le text.val.length) (Nat.lt_succ_self _)
    exact ⟨hresult, hsafe⟩

/-- The last byte of a sequence of three is missing. -/
theorem decodeUtf8CodePoint_in_range_truncated :
    ∃ decoded, (runDecode [0xE2, 0x82] 0 0).result = some decoded ∧ 0 < decoded.offset ∧ decoded.offset ≤ 2 := by
  obtain ⟨hresult, _, hlt, _, hle, _⟩ :=
    (decodeUtf8CodePoint_in_range ⟨[0xE2, 0x82], by decide⟩).1 0 Nat.two_pos 0
  exact ⟨_, hresult, hlt, hle⟩

/-! ## Storage -/

end StringUtils

end Pans
