import Pans.Lib.Outcome

/-!
# Growable arrays

A vector with its capacity. It asks for storage only when what it is to hold does not fit, and an allocation that
fails throws and leaves the vector as it was. `limit` is the most elements that any vector holds.
-/

structure Growable (α : Type*) (limit : Nat) where
  toList : List α
  capacity : Nat
  length_le : toList.length ≤ capacity
  capacity_le : capacity ≤ limit
  deriving DecidableEq, Repr

/-- How a request for storage ends: `none` if it throws, else with room for so many elements more than were asked
for. -/
abbrev Allocation := Option Nat

namespace Growable

variable {α : Type*} {limit : Nat}

def empty : Growable α limit := ⟨[], 0, Nat.le_refl _, Nat.zero_le _⟩

def reserve (v : Growable α limit) (n : Nat) (allocation : Allocation) : Outcome (Growable α limit) Unit :=
  if hlimit : limit < n then .threw v
  else if hroom : n ≤ v.capacity then .done v ()
  else
    match allocation with
    | none => .threw v
    | some extra =>
        have hle := Nat.le_trans v.length_le (Nat.le_of_not_le hroom)
        .done ⟨v.toList, min (n + extra) limit, by omega, Nat.min_le_right _ _⟩ ()

/-- Insertion at the end. -/
def insertEnd (v : Growable α limit) (xs : List α) (allocation : Allocation) : Outcome (Growable α limit) Unit :=
  if hroom : v.toList.length + xs.length ≤ v.capacity then
    .done ⟨v.toList ++ xs, v.capacity, by rwa [List.length_append], v.capacity_le⟩ ()
  else if hlimit : limit < v.toList.length + xs.length then .threw v
  else
    match allocation with
    | none => .threw v
    | some extra =>
        .done ⟨v.toList ++ xs, min (v.toList.length + xs.length + extra) limit,
          by rw [List.length_append]; omega, Nat.min_le_right _ _⟩ ()

variable {v v' : Growable α limit} {n : Nat} {xs : List α} {allocation : Allocation}

theorem length_le_limit (v : Growable α limit) : v.toList.length ≤ limit := Nat.le_trans v.length_le v.capacity_le

/-! ## Reserving -/

theorem reserve_done (h : v.reserve n allocation = .done v' ()) : v'.toList = v.toList ∧ n ≤ v'.capacity := by
  unfold reserve at h
  split at h
  · cases h
  split at h
  · cases h
    exact ⟨rfl, by assumption⟩
  split at h
  · cases h
  · cases h
    exact ⟨rfl, by simp only; omega⟩

theorem reserve_threw (h : v.reserve n allocation = .threw v') : v' = v ∧ (allocation = none ∨ limit < n) := by
  unfold reserve at h
  split at h
  · cases h
    exact ⟨rfl, .inr (by assumption)⟩
  split at h
  · cases h
  split at h <;> cases h
  exact ⟨rfl, .inl rfl⟩

theorem reserve_ne_undefined : v.reserve n allocation ≠ .undefined := by
  unfold reserve
  split
  · nofun
  split
  · nofun
  split <;> nofun

/-! ## Inserting -/

theorem insertEnd_of_room (allocation : Allocation) (h : v.toList.length + xs.length ≤ v.capacity) :
    ∃ v', v.insertEnd xs allocation = .done v' () ∧ v'.capacity = v.capacity := by
  rw [insertEnd, dif_pos h]
  exact ⟨_, rfl, rfl⟩

theorem insertEnd_done (h : v.insertEnd xs allocation = .done v' ()) : v'.toList = v.toList ++ xs := by
  unfold insertEnd at h
  split at h
  · cases h
    rfl
  split at h
  · cases h
  split at h <;> cases h
  rfl

theorem insertEnd_threw (h : v.insertEnd xs allocation = .threw v') :
    v' = v ∧ (allocation = none ∨ limit < v.toList.length + xs.length) := by
  unfold insertEnd at h
  split at h
  · cases h
  split at h
  · cases h
    exact ⟨rfl, .inr (by assumption)⟩
  split at h <;> cases h
  exact ⟨rfl, .inl rfl⟩

theorem insertEnd_ne_undefined : v.insertEnd xs allocation ≠ .undefined := by
  unfold insertEnd
  split
  · nofun
  split
  · nofun
  split <;> nofun

/-! ## Requests -/

/-- The capacity that a request for `n` elements gets, and `none` if it is refused. -/
def grown (limit n : Nat) (allocation : Allocation) : Option Nat :=
  if limit < n then none else allocation.map fun extra => min (n + extra) limit

theorem grown_le {capacity : Nat} (h : grown limit n allocation = some capacity) : n ≤ capacity := by
  unfold grown at h
  split at h
  · cases h
  · obtain ⟨extra, _, rfl⟩ := Option.map_eq_some_iff.mp h
    omega

theorem reserve_of_full (h : v.capacity < n) :
    grown limit n allocation = none ∧ v.reserve n allocation = .threw v ∨
      ∃ v', grown limit n allocation = some v'.capacity ∧ v.reserve n allocation = .done v' () := by
  unfold grown reserve
  by_cases hlimit : limit < n
  · exact .inl ⟨if_pos hlimit, dif_pos hlimit⟩
  · rw [if_neg hlimit, dif_neg hlimit, dif_neg (Nat.not_le.mpr h)]
    cases allocation with
    | none => exact .inl ⟨rfl, rfl⟩
    | some extra => exact .inr ⟨_, rfl, rfl⟩

theorem insertEnd_of_full (h : v.capacity < v.toList.length + xs.length) :
    grown limit (v.toList.length + xs.length) allocation = none ∧ v.insertEnd xs allocation = .threw v ∨
      ∃ v', grown limit (v.toList.length + xs.length) allocation = some v'.capacity ∧
        v.insertEnd xs allocation = .done v' () := by
  unfold grown insertEnd
  rw [dif_neg (Nat.not_le.mpr h)]
  by_cases hlimit : limit < v.toList.length + xs.length
  · exact .inl ⟨if_pos hlimit, dif_pos hlimit⟩
  · rw [if_neg hlimit, dif_neg hlimit]
    cases allocation with
    | none => exact .inl ⟨rfl, rfl⟩
    | some extra => exact .inr ⟨_, rfl, rfl⟩

/-! ## One at a time -/

variable {allocate : Nat → Allocation}

end Growable
