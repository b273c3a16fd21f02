import Mathlib.Algebra.Ring.Nat
import Mathlib.Tactic.Ring

/-!
# Numerals of fixed width

The most significant digit comes first. Numerals of one width are ordered as texts as their values are as numbers.
-/

namespace Numeral

variable {α : Type*} {base : Nat} {rank : α → Nat} {D : α → Prop} {ds es : List α}

def value (base : Nat) (rank : α → Nat) : List α → Nat
  | [] => 0
  | d :: ds => rank d * base ^ ds.length + value base rank ds

/-- Digits below the base, in the order of their ranks. -/
structure Digits [LT α] (base : Nat) (rank : α → Nat) (D : α → Prop) : Prop where
  lt_base : ∀ d, D d → rank d < base
  lt_iff : ∀ d e, D d → D e → (d < e ↔ rank d < rank e)
  rank_inj : ∀ d e, D d → D e → rank d = rank e → d = e

theorem value_append_digit (ds : List α) (d : α) :
    value base rank (ds ++ [d]) = value base rank ds * base + rank d := by
  induction ds with
  | nil => simp [value]
  | cons e ds ih =>
      rw [List.cons_append, value, ih, value, List.length_append, List.length_singleton, Nat.pow_succ]
      ring

section

variable [LT α] (hD : Digits base rank D)

include hD

theorem value_lt (hds : ∀ d ∈ ds, D d) : value base rank ds < base ^ ds.length := by
  induction ds with
  | nil => exact Nat.one_pos
  | cons d ds ih =>
      obtain ⟨hd, hds⟩ := List.forall_mem_cons.mp hds
      have hrest := ih hds
      calc rank d * base ^ ds.length + value base rank ds
          < rank d * base ^ ds.length + base ^ ds.length := Nat.add_lt_add_left hrest _
        _ = (rank d + 1) * base ^ ds.length := (Nat.succ_mul _ _).symm
        _ ≤ base * base ^ ds.length := Nat.mul_le_mul_right _ (hD.lt_base d hd)
        _ = base ^ (d :: ds).length := by rw [List.length_cons, Nat.pow_succ, Nat.mul_comm]

/-- The leading digits decide, unless they are the same. -/
theorem lt_of_rank_lt {d e : α} (hds : ∀ d ∈ ds, D d) (hlength : ds.length = es.length) (h : rank d < rank e) :
    value base rank (d :: ds) < value base rank (e :: es) := by
  have hrest := value_lt hD hds
  calc rank d * base ^ ds.length + value base rank ds
      < (rank d + 1) * base ^ ds.length := by rw [Nat.succ_mul]; exact Nat.add_lt_add_left hrest _
    _ ≤ rank e * base ^ es.length := by rw [hlength]; exact Nat.mul_le_mul_right _ h
    _ ≤ rank e * base ^ es.length + value base rank es := Nat.le_add_right _ _

theorem lt_iff_value_lt (hds : ∀ d ∈ ds, D d) (hes : ∀ e ∈ es, D e) (hlength : ds.length = es.length) :
    ds < es ↔ value base rank ds < value base rank es := by
  induction ds generalizing es with
  | nil =>
      obtain rfl := List.length_eq_zero_iff.mp hlength.symm
      simp [value]
  | cons d ds ih =>
      obtain ⟨e, es, rfl⟩ := List.exists_cons_of_length_eq_add_one hlength.symm
      obtain ⟨hd, hds⟩ := List.forall_mem_cons.mp hds
      obtain ⟨he, hes⟩ := List.forall_mem_cons.mp hes
      have htail : ds.length = es.length := Nat.succ.inj hlength
      rw [List.cons_lt_cons_iff, hD.lt_iff d e hd he, ih hds hes htail]
      rcases Nat.lt_trichotomy (rank d) (rank e) with hlt | heq | hgt
      · simp only [hlt, true_or, true_iff]
        exact lt_of_rank_lt hD hds htail hlt
      · obtain rfl := hD.rank_inj d e hd he heq
        simp [value, htail]
      · have hback := lt_of_rank_lt hD hes htail.symm hgt
        have hne : d ≠ e := by
          rintro rfl
          exact Nat.lt_irrefl _ hgt
        simp only [Nat.lt_asymm hgt, hne, false_and, or_self, false_iff]
        exact Nat.lt_asymm hback

theorem le_iff_value_le (hds : ∀ d ∈ ds, D d) (hes : ∀ e ∈ es, D e) (hlength : ds.length = es.length) :
    ds ≤ es ↔ value base rank ds ≤ value base rank es := by
  rw [← Nat.not_lt, ← lt_iff_value_lt hD hes hds hlength.symm]
  rfl

end

end Numeral
