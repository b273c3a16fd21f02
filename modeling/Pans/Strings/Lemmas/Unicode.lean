import Pans.Strings.Lemmas.Codec

/-!
# The codes are those of Unicode

The UTF-8 words are the sequences of Table 3-7, and the texts of UTF-16 words are the well-formed ones.
-/

namespace Pans

namespace StringUtils

/-! ## Table 3-7 -/

theorem utf8Value_appendUtf8 {c : UInt32} (hc : IsScalar c) : utf8Value (appendUtf8 [] c) = c.toNat := by
  have hmax := hc.1
  rcases appendUtf8_cases hc.1 with ⟨w, he, _, hw⟩ | ⟨w, x, he, _, _, hw, hx⟩ |
    ⟨w, x, y, he, _, _, hw, hx, hy⟩ | ⟨w, x, y, z, he, _, hw, hx, hy, hz⟩
  · rw [he, utf8Value, hw]
  · rw [he, utf8Value, hw, hx]
    omega
  · rw [he, utf8Value, hw, hx, hy]
    omega
  · rw [he, utf8Value, hw, hx, hy, hz]
    omega

/-- Each scalar value falls in one row: the first byte of the row fixes the range of the second. -/
theorem isUtf8Sequence_of_scalar {c : UInt32} (hc : IsScalar c) : IsUtf8Sequence (appendUtf8 [] c) := by
  obtain ⟨hmax, hsurrogate⟩ := hc
  rcases appendUtf8_cases hmax with ⟨w, he, _, hw⟩ | ⟨w, x, he, _, _, hw, hx⟩ |
    ⟨w, x, y, he, _, _, hw, hx, hy⟩ | ⟨w, x, y, z, he, _, hw, hx, hy, hz⟩ <;>
  · simp [IsUtf8Sequence, utf8Table, he]
    omega

theorem isUtf8Sequence_cases {bytes : Bytes} (h : IsUtf8Sequence bytes) :
    (∃ w, bytes = [w] ∧ w.toNat ≤ 0x7F) ∨
    (∃ w x, bytes = [w, x] ∧ IsContinuation x ∧ 0xC2 ≤ w.toNat ∧ w.toNat ≤ 0xDF) ∨
    (∃ w x y, bytes = [w, x, y] ∧ IsContinuation x ∧ IsContinuation y ∧ 0xE0 ≤ w.toNat ∧ w.toNat ≤ 0xEF ∧
      (w.toNat = 0xE0 → 0xA0 ≤ x.toNat) ∧ (w.toNat = 0xED → x.toNat ≤ 0x9F)) ∨
    (∃ w x y z, bytes = [w, x, y, z] ∧ IsContinuation x ∧ IsContinuation y ∧ IsContinuation z ∧
      0xF0 ≤ w.toNat ∧ w.toNat ≤ 0xF4 ∧ (w.toNat = 0xF0 → 0x90 ≤ x.toNat) ∧ (w.toNat = 0xF4 → x.toNat ≤ 0x8F)) := by
  obtain ⟨row, hrow, hbytes⟩ := h
  simp only [utf8Table, List.mem_cons, List.not_mem_nil, or_false] at hrow
  rcases hrow with rfl | rfl | rfl | rfl | rfl | rfl | rfl | rfl | rfl <;>
    simp only [List.forall₂_cons_right_iff, List.forall₂_nil_right_iff] at hbytes
  · obtain ⟨w, _, hw, rfl, rfl⟩ := hbytes
    exact .inl ⟨w, rfl, hw.2⟩
  · obtain ⟨w, _, hw, ⟨x, _, hx, rfl, rfl⟩, rfl⟩ := hbytes
    exact .inr (.inl ⟨w, x, rfl, hx, hw⟩)
  iterate 4
    obtain ⟨w, _, hw, ⟨x, _, hx, ⟨y, _, hy, rfl, rfl⟩, rfl⟩, rfl⟩ := hbytes
    refine .inr (.inr (.inl ⟨w, x, y, rfl, ?_⟩))
    simp only [IsContinuation]
    omega
  iterate 3
    obtain ⟨w, _, hw, ⟨x, _, hx, ⟨y, _, hy, ⟨z, _, hz, rfl, rfl⟩, rfl⟩, rfl⟩, rfl⟩ := hbytes
    refine .inr (.inr (.inr ⟨w, x, y, z, rfl, ?_⟩))
    simp only [IsContinuation]
    omega

theorem scalar_of_isUtf8Sequence {bytes : Bytes} (h : IsUtf8Sequence bytes) :
    ∃ c, IsScalar c ∧ bytes = appendUtf8 [] c := by
  suffices hval : IsScalar (UInt32.ofNat (utf8Value bytes)) ∧
      bytes.map UInt8.toNat = utf8Bytes (utf8Value bytes) ∧ utf8Value bytes < 2 ^ 32 by
    obtain ⟨hscalar, hword, hlt⟩ := hval
    refine ⟨_, hscalar, ((appendUtf8_eq_iff hscalar.1).mpr ?_).symm⟩
    rw [hword, UInt32.toNat_ofNat_of_lt' hlt]
  simp only [IsScalar, UInt32.toNat_ofNat']
  rcases isUtf8Sequence_cases h with ⟨w, rfl, hw⟩ | ⟨w, x, rfl, hx, hw⟩ | ⟨w, x, y, rfl, hx, hy, hw⟩ |
    ⟨w, x, y, z, rfl, hx, hy, hz, hw⟩
  · generalize hvalue : utf8Value _ = n
    rw [utf8Value] at hvalue
    rw [utf8Bytes, if_pos (by omega)]
    simp
    omega
  · obtain ⟨hx1, hx2⟩ := hx
    generalize hvalue : utf8Value _ = n
    rw [utf8Value] at hvalue
    rw [utf8Bytes, if_neg (by omega), if_pos (by omega)]
    simp
    omega
  · obtain ⟨hx1, hx2⟩ := hx
    obtain ⟨hy1, hy2⟩ := hy
    generalize hvalue : utf8Value _ = n
    rw [utf8Value] at hvalue
    rw [utf8Bytes, if_neg (by omega), if_neg (by omega), if_pos (by omega)]
    simp
    omega
  · obtain ⟨hx1, hx2⟩ := hx
    obtain ⟨hy1, hy2⟩ := hy
    obtain ⟨hz1, hz2⟩ := hz
    generalize hvalue : utf8Value _ = n
    rw [utf8Value] at hvalue
    rw [utf8Bytes, if_neg (by omega), if_neg (by omega), if_neg (by omega)]
    simp
    omega

/-- The scalar value of a sequence, and the sequence back. -/
theorem isUtf8Sequence_scalar {bytes : Bytes} (h : IsUtf8Sequence bytes) :
    IsScalar (UInt32.ofNat (utf8Value bytes)) ∧ appendUtf8 [] (UInt32.ofNat (utf8Value bytes)) = bytes := by
  obtain ⟨c, hc, rfl⟩ := scalar_of_isUtf8Sequence h
  rw [utf8Value_appendUtf8 hc, UInt32.ofNat_toNat]
  exact ⟨hc, rfl⟩

theorem decodeAll_of_isUtf8 {s : Bytes} {seqs : List Bytes} (h : IsUtf8 s seqs) :
    utf8.decodeAll s = some (seqs.map fun bytes => UInt32.ofNat (utf8Value bytes)) := by
  obtain ⟨hseqs, rfl⟩ := h
  refine utf8.decodeAll_eq_some_iff.mpr ⟨?_, ?_⟩
  · intro c hc
    obtain ⟨bytes, hmem, rfl⟩ := List.mem_map.mp hc
    exact (isUtf8Sequence_scalar (hseqs bytes hmem)).1
  · rw [List.flatMap_def, List.map_map]
    congr 1
    exact (List.map_id seqs).symm.trans
      (List.map_congr_left fun bytes hmem => (isUtf8Sequence_scalar (hseqs bytes hmem)).2.symm)

theorem isUtf8_of_decodeAll {s : Bytes} {cs : List UInt32} (h : utf8.decodeAll s = some cs) :
    IsUtf8 s (cs.map (appendUtf8 [])) := by
  obtain ⟨hcs, rfl⟩ := utf8.decodeAll_eq_some_iff.mp h
  refine ⟨?_, rfl⟩
  intro bytes hmem
  obtain ⟨c, hc, rfl⟩ := List.mem_map.mp hmem
  exact isUtf8Sequence_of_scalar (hcs c hc)

/-! ## UTF-16 -/

theorem isUtf16_decodeAll {w : List UInt16} {cs : List UInt32} (h : IsUtf16 w cs) :
    utf16.decodeAll w = some cs := by
  induction h with
  | nil => exact utf16.decodeAll_nil
  | @unit u c w cs hhigh hlow hvalue _ ih =>
      cases UInt32.toNat_inj.mp (hvalue.trans (UInt16.toNat_toUInt32 _).symm)
      have hdec : utf16.dec (u :: w) = some (u.toUInt32, w) := utf16Dec_unit w hhigh hlow
      rw [utf16.decodeAll_of_dec hdec, ih, Option.map_some]
  | @pair u v c w cs hu hv hvalue _ ih =>
      cases UInt32.toNat_inj.mp (hvalue.trans (joinSurrogates_toNat hu hv).symm)
      have hdec : utf16.dec (u :: v :: w) = some (joinSurrogates u.toUInt32 v.toUInt32, w) := utf16Dec_pair w hu hv
      rw [utf16.decodeAll_of_dec hdec, ih, Option.map_some]

theorem isUtf16_of_scalars {cs : List UInt32} (h : ∀ c ∈ cs, IsScalar c) : IsUtf16 (cs.flatMap utf16.enc) cs := by
  induction cs with
  | nil => exact .nil
  | cons c cs ih =>
      obtain ⟨hc, hcs⟩ := List.forall_mem_cons.mp h
      rw [List.flatMap_cons]
      rcases pushUtf16_cases hc with ⟨u, hword, hhigh, hlow, rfl⟩ | ⟨u, v, hword, hu, hv, rfl⟩
      · rw [show utf16.enc u.toUInt32 = [u] from hword]
        exact .unit hhigh hlow (UInt16.toNat_toUInt32 u) (ih hcs)
      · rw [show utf16.enc _ = [u, v] from hword]
        exact .pair hu hv (joinSurrogates_toNat hu hv) (ih hcs)

theorem decodeAll_utf16_iff {w : List UInt16} {cs : List UInt32} :
    utf16.decodeAll w = some cs ↔ IsUtf16 w cs := by
  constructor
  · intro h
    obtain ⟨hcs, rfl⟩ := utf16.decodeAll_eq_some_iff.mp h
    exact isUtf16_of_scalars hcs
  · exact isUtf16_decodeAll

theorem isLow_not_isHigh {u : UInt16} (h : IsLow u) : ¬IsHigh u := by
  intro hhigh
  have := h.1
  have := hhigh.2
  omega

theorem isWellFormedUtf16_unit {u : UInt16} {w : List UInt16} (hhigh : ¬IsHigh u) (hlow : ¬IsLow u) :
    IsWellFormedUtf16 (u :: w) ↔ IsWellFormedUtf16 w := by
  constructor
  · intro h i x hi
    refine ⟨(h (i + 1) x hi).1, fun hx => ?_⟩
    obtain ⟨j, v, hj, hv, hvhigh⟩ := (h (i + 1) x hi).2 hx
    cases j with
    | zero =>
        cases hv
        exact absurd hvhigh hhigh
    | succ j => exact ⟨j, v, by omega, hv, hvhigh⟩
  · intro h i x hi
    cases i with
    | zero =>
        cases hi
        exact ⟨fun hx => absurd hx hhigh, fun hx => absurd hx hlow⟩
    | succ i =>
        refine ⟨(h i x hi).1, fun hx => ?_⟩
        obtain ⟨j, v, rfl, hv, hvhigh⟩ := (h i x hi).2 hx
        exact ⟨j + 1, v, rfl, hv, hvhigh⟩

theorem isWellFormedUtf16_pair {u v : UInt16} {w : List UInt16} (hu : IsHigh u) (hv : IsLow v) :
    IsWellFormedUtf16 (u :: v :: w) ↔ IsWellFormedUtf16 w := by
  constructor
  · intro h i x hi
    refine ⟨(h (i + 2) x hi).1, fun hx => ?_⟩
    obtain ⟨j, y, hj, hy, hyhigh⟩ := (h (i + 2) x hi).2 hx
    match j, hj, hy with
    | 1, _, hy =>
        cases hy
        exact absurd hyhigh (isLow_not_isHigh hv)
    | j + 2, hj, hy => exact ⟨j, y, by omega, hy, hyhigh⟩
  · intro h i x hi
    match i, hi with
    | 0, hi =>
        cases hi
        exact ⟨fun _ => ⟨v, rfl, hv⟩, fun hx => absurd hu (isLow_not_isHigh hx)⟩
    | 1, hi =>
        cases hi
        exact ⟨fun hx => absurd hx (isLow_not_isHigh hv), fun _ => ⟨0, u, rfl, rfl, hu⟩⟩
    | i + 2, hi =>
        refine ⟨(h i x hi).1, fun hx => ?_⟩
        obtain ⟨j, y, rfl, hy, hyhigh⟩ := (h i x hi).2 hx
        exact ⟨j + 2, y, rfl, hy, hyhigh⟩

theorem isWellFormedUtf16_iff {w : List UInt16} : IsWellFormedUtf16 w ↔ ∃ cs, IsUtf16 w cs := by
  constructor
  · intro h
    induction hn : w.length using Nat.strongRecOn generalizing w with
    | _ n ih =>
        cases w with
        | nil => exact ⟨[], .nil⟩
        | cons u w =>
            by_cases hu : IsHigh u
            · obtain ⟨v, hv, hlow⟩ := (h 0 u rfl).1 hu
              cases w with
              | nil => cases hv
              | cons v' w =>
                  cases hv
                  obtain ⟨cs, hcs⟩ := ih w.length (by rw [← hn]; simp only [List.length_cons]; omega)
                    ((isWellFormedUtf16_pair hu hlow).mp h) rfl
                  exact ⟨_, .pair hu hlow (joinSurrogates_toNat hu hlow) hcs⟩
            · have hlow : ¬IsLow u := by
                intro hlow
                obtain ⟨j, v, hj, _⟩ := (h 0 u rfl).2 hlow
                cases hj
              obtain ⟨cs, hcs⟩ := ih w.length (by rw [← hn]; simp only [List.length_cons]; omega)
                ((isWellFormedUtf16_unit hu hlow).mp h) rfl
              exact ⟨_, .unit hu hlow (UInt16.toNat_toUInt32 u) hcs⟩
  · rintro ⟨cs, h⟩
    induction h with
    | nil => exact fun i u hi => by cases hi
    | unit hhigh hlow _ _ ih => exact (isWellFormedUtf16_unit hhigh hlow).mpr ih
    | pair hu hv _ _ ih => exact (isWellFormedUtf16_pair hu hv).mpr ih

end StringUtils

end Pans
