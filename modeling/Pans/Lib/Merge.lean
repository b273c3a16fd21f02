import Mathlib.Data.List.Basic
import Mathlib.Data.List.Infix

/-!
# Merged lists

A list that is made of several others, each of which keeps its order.
-/

section

variable {ι α : Type*} [DecidableEq ι]

/-- Each element comes from one of the lists, and what comes from a list is the list. -/
def Merges (parts : ι → List α) (whole : List α) : Prop :=
  ∃ tagged : List (ι × α), tagged.map Prod.snd = whole ∧
    ∀ i, (tagged.filter fun p => p.1 = i).map Prod.snd = parts i

namespace Merges

variable {parts parts' : ι → List α} {whole : List α} {i : ι}

theorem nil (h : ∀ i, parts i = []) : Merges parts [] := ⟨[], rfl, fun i => (h i).symm⟩

/-- One of the lists grows at its end, and the merged list with it. -/
theorem append (h : Merges parts whole) {xs : List α} (hown : parts' i = parts i ++ xs)
    (hothers : ∀ j, j ≠ i → parts' j = parts j) : Merges parts' (whole ++ xs) := by
  obtain ⟨tagged, rfl, hparts⟩ := h
  have hsnd : (xs.map fun x => (i, x)).map Prod.snd = xs := by simp [Function.comp_def]
  refine ⟨tagged ++ xs.map fun x => (i, x), by rw [List.map_append, hsnd], fun j => ?_⟩
  rw [List.filter_append, List.map_append, hparts]
  rcases eq_or_ne j i with rfl | hne
  · have hall : (xs.map fun x => (j, x)).filter (fun p => p.1 = j) = xs.map fun x => (j, x) :=
      List.filter_eq_self.mpr (by simp)
    rw [hall, hsnd, hown]
  · have hnone : (xs.map fun x => (i, x)).filter (fun p => p.1 = j) = [] := by
      simp [List.filter_eq_nil_iff, hne.symm]
    rw [hnone, List.map_nil, List.append_nil, hothers j hne]

theorem congr (h : Merges parts whole) (hparts : ∀ i, parts' i = parts i) : Merges parts' whole := by
  obtain ⟨tagged, hwhole, hfilter⟩ := h
  exact ⟨tagged, hwhole, fun i => (hfilter i).trans (hparts i).symm⟩

/-- Where there is only one list, the merged list is that list. -/
theorem eq_of_single (h : Merges parts whole) (hothers : ∀ j, j ≠ i → parts j = []) : whole = parts i := by
  obtain ⟨tagged, rfl, hparts⟩ := h
  rw [← hparts, List.filter_eq_self.mpr]
  intro p hp
  by_contra hne
  have hne : p.1 ≠ i := by simpa using hne
  have hmem : p.2 ∈ parts p.1 := by
    rw [← hparts]
    exact List.mem_map.mpr ⟨p, List.mem_filter.mpr ⟨hp, by simp⟩, rfl⟩
  rw [hothers p.1 hne] at hmem
  cases hmem

end Merges

end
