import Mathlib.Data.List.TakeWhile
import Pans.Lib.Codec

/-!
# Delimited words

The word in front of the first delimiter of a text.
-/

namespace Delimiter

variable {α : Type*} [DecidableEq α] {c : α} {s t rest : List α}

/-- The whole text if there is no delimiter. -/
def word (c : α) (s : List α) : List α := s.takeWhile (· ≠ c)

@[simp] theorem word_nil : word c [] = [] := rfl

@[simp] theorem word_cons_self : word c (c :: s) = [] := by simp [word]

theorem word_cons_of_ne {a : α} (h : a ≠ c) : word c (a :: s) = a :: word c s := by simp [word, h]

theorem not_mem_word : c ∉ word c s := fun h => by simpa using List.mem_takeWhile_imp h

theorem word_append_of_not_mem (h : c ∉ t) : word c (t ++ s) = t ++ word c s := by
  induction t with
  | nil => rfl
  | cons a t ih =>
      rw [List.mem_cons, not_or] at h
      rw [List.cons_append, word_cons_of_ne (Ne.symm h.1), ih h.2, List.cons_append]

theorem word_of_not_mem (h : c ∉ s) : word c s = s := by simpa using word_append_of_not_mem (s := []) h

theorem word_delimited (h : c ∉ t) : word c (t ++ c :: rest) = t := by simp [word_append_of_not_mem h]

theorem word_append_of_mem (h : c ∈ s) : word c (s ++ rest) = word c s := by
  obtain ⟨t, u, rfl, ht⟩ := List.eq_append_cons_of_mem h
  rw [List.append_assoc, List.cons_append, word_delimited ht, word_delimited ht]

theorem word_prefix : word c s <+: s := List.takeWhile_prefix _

theorem word_eq_iff (hs : c ∈ s) (ht : c ∉ t) : word c s = t ↔ ∃ u, s = t ++ c :: u := by
  constructor
  · rintro rfl
    obtain ⟨w, u, rfl, hw⟩ := List.eq_append_cons_of_mem hs
    exact ⟨u, by rw [word_delimited hw]⟩
  · rintro ⟨u, rfl⟩
    exact word_delimited ht

/-- A text falls into two parts at its first delimiter in one way only. -/
theorem delimited_inj {u : List α} (hs : c ∉ s) (ht : c ∉ t) : s ++ c :: rest = t ++ c :: u ↔ s = t ∧ rest = u := by
  constructor
  · intro h
    have hword := congrArg (word c) h
    rw [word_delimited hs, word_delimited ht] at hword
    subst hword
    simpa using h
  · rintro ⟨rfl, rfl⟩
    rfl

/-- A delimited word behind another text is the first word only if that text itself begins with it. -/
theorem word_behind_eq_iff {d : α} (hd : d ≠ c) (ht : c ∉ t) :
    word c (s ++ d :: (t ++ c :: rest)) = t ↔ ∃ u, s = t ++ c :: u := by
  by_cases hmem : c ∈ s
  · rw [word_append_of_mem hmem, word_eq_iff hmem ht]
  · rw [word_append_of_not_mem hmem, word_cons_of_ne hd, word_delimited ht]
    constructor
    · intro h
      have := congrArg List.length h
      simp only [List.length_append, List.length_cons] at this
      omega
    · rintro ⟨u, rfl⟩
      simp at hmem

theorem findIdx?_of_mem (h : c ∈ s) : s.findIdx? (· == c) = some (word c s).length := by
  obtain ⟨t, u, rfl, ht⟩ := List.eq_append_cons_of_mem h
  rw [word_delimited ht, List.findIdx?_append, List.findIdx?_eq_none_iff.mpr]
  · simp [List.findIdx?_cons]
  · intro a ha
    simpa using ne_of_mem_of_not_mem ha ht

theorem findIdx?_of_not_mem (h : c ∉ s) : s.findIdx? (· == c) = none := by
  rw [List.findIdx?_eq_none_iff]
  intro a ha
  simpa using ne_of_mem_of_not_mem ha h

/-! ## Cutting -/

/-- The text in front of the first delimiter, and the text behind it. -/
def cut (c : α) (s : List α) : Option (List α × List α) :=
  if c ∈ s then some (word c s, s.drop ((word c s).length + 1)) else none

theorem cut_eq_some_iff : cut c s = some (t, rest) ↔ c ∉ t ∧ s = t ++ c :: rest := by
  unfold cut
  constructor
  · intro h
    split at h <;> cases h
    rename_i hmem
    obtain ⟨w, u, rfl, hw⟩ := List.eq_append_cons_of_mem hmem
    rw [word_delimited hw]
    exact ⟨hw, by simp⟩
  · rintro ⟨ht, rfl⟩
    simp [word_delimited ht]

/-- The text in front of the last delimiter, and the text behind it. -/
def cutLast (c : α) (s : List α) : Option (List α × List α) :=
  (cut c s.reverse).map fun p => (p.2.reverse, p.1.reverse)

theorem cutLast_eq_some_iff : cutLast c s = some (t, rest) ↔ c ∉ rest ∧ s = t ++ c :: rest := by
  rw [cutLast, Option.map_eq_some_iff]
  constructor
  · rintro ⟨⟨behind, before⟩, hcut, heq⟩
    cases heq
    obtain ⟨hbehind, hs⟩ := cut_eq_some_iff.mp hcut
    refine ⟨by simpa using hbehind, ?_⟩
    rw [← List.reverse_reverse s, hs]
    simp
  · rintro ⟨hrest, rfl⟩
    exact ⟨(rest.reverse, t.reverse), cut_eq_some_iff.mpr ⟨by simpa using hrest, by simp⟩, by simp⟩

theorem cut_sound (h : cut c s = some (t, rest)) : c ∉ t ∧ s = t ++ [c] ++ rest := by
  obtain ⟨ht, rfl⟩ := cut_eq_some_iff.mp h
  exact ⟨ht, by simp⟩

/-- Words with a delimiter behind each. -/
def code (c : α) : SymbolCode (List α) α where
  Valid t := c ∉ t
  enc t := t ++ [c]
  dec s := cut c s
  enc_ne_nil _ := List.append_ne_nil_of_right_ne_nil _ (List.cons_ne_nil c [])
  dec_enc _ h := cut_eq_some_iff.mpr ⟨h, List.append_assoc _ _ _⟩
  dec_sound h := cut_sound h

end Delimiter
