import Mathlib.Data.List.TakeWhile

/-!
# Bytes

`char`, `std::string` and `std::string_view` as bytes. A pointer to a C string stops at its first NUL.
-/

namespace Pans

abbrev Byte := UInt8

abbrev Bytes := List Byte

def byte (c : Char) : Byte := c.toUInt8

def ascii (s : String) : Bytes := s.toList.map byte

/-- What a callee sees of `s.c_str()`. -/
def cString (s : Bytes) : Bytes := s.takeWhile (· ≠ 0)

/-- `std::string::find(c, pos)`; `none` is `npos`. -/
def find (s : Bytes) (c : Byte) (pos : Nat) : Option Nat :=
  ((s.drop pos).findIdx? (· == c)).map (· + pos)

/-- `std::string_view::substr(pos, count)`. -/
def substr (s : Bytes) (pos count : Nat) : Bytes := (s.drop pos).take count

/-! ## C strings -/

theorem cString_append_nul {s : Bytes} (h : 0 ∉ s) (rest : Bytes) : cString (s ++ 0 :: rest) = s := by
  unfold cString
  rw [List.takeWhile_append_of_pos]
  · simp
  · intro b hb
    simpa using ne_of_mem_of_not_mem hb h

/-! ## Searching -/

theorem find_ge {s : Bytes} {c : Byte} {pos k : Nat} (h : find s c pos = some k) : pos ≤ k := by
  simp only [find, Option.map_eq_some_iff] at h
  obtain ⟨i, _, rfl⟩ := h
  exact Nat.le_add_left _ _

theorem find_lt {s : Bytes} {c : Byte} {pos k : Nat} (h : find s c pos = some k) : k < s.length := by
  simp only [find, Option.map_eq_some_iff] at h
  obtain ⟨i, hi, rfl⟩ := h
  have := (List.findIdx?_eq_some_iff_getElem.mp hi).1
  simp only [List.length_drop] at this
  omega

theorem find_append {pre f rest : Bytes} {c : Byte} (hf : c ∉ f) :
    find (pre ++ (f ++ c :: rest)) c pre.length = some (pre.length + f.length) := by
  simp only [find, List.drop_left, Option.map_eq_some_iff]
  refine ⟨f.length, ?_, Nat.add_comm _ _⟩
  rw [List.findIdx?_eq_some_iff_getElem]
  refine ⟨by simp, by simp, ?_⟩
  intro j hj
  rw [List.getElem_append_left hj]
  simpa using ne_of_mem_of_not_mem (List.getElem_mem hj) hf

theorem find_some {s : Bytes} {c : Byte} {pos k : Nat} (h : find s c pos = some k) :
    s.drop pos = substr s pos (k - pos) ++ c :: s.drop (k + 1) ∧ c ∉ substr s pos (k - pos) := by
  simp only [find, Option.map_eq_some_iff] at h
  obtain ⟨i, hi, rfl⟩ := h
  obtain ⟨hlt, hc, hbefore⟩ := List.findIdx?_eq_some_iff_getElem.mp hi
  simp only [Nat.add_sub_cancel, substr]
  constructor
  · have hget : (s.drop pos)[i] = c := by simpa using hc
    have hdrop : s.drop (i + pos + 1) = (s.drop pos).drop (i + 1) := by
      rw [List.drop_drop]; congr 1; omega
    rw [hdrop, ← hget, List.getElem_cons_drop, List.take_append_drop]
  · intro hmem
    obtain ⟨j, hj, he⟩ := List.getElem_of_mem hmem
    have hj' : j < i := by
      have := hj
      simp only [List.length_take] at this
      omega
    have := hbefore j hj'
    rw [List.getElem_take] at he
    simp [he] at this

end Pans
