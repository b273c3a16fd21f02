import Pans.Formatter.Construct

/-!
# The assertions leave the parser alone

Whatever holds of the process and survives a failed assertion survives the constructor, which comes back with the
formatter exactly if the pattern is accepted.
-/

namespace Pans

section

variable {S : Type} {assertFailed : AssertFailure → S → Outcome S Unit} {P : S → Prop}
  (hassert : ∀ failure s, P s → (assertFailed failure s).Yields () P)

include hassert

theorem assertRetVal_yields {α : Type} (failure : AssertFailure) (value : α) {s : S} (hs : P s) :
    (assertRetVal assertFailed failure value s).Yields value P :=
  (hassert failure s hs).bind fun _ => Outcome.yields_done

theorem createFormatItemAsserting_yields (directive : Byte) (format : Bytes) {s : S} (hs : P s) :
    (createFormatItemAsserting assertFailed directive format s).Yields (createFormatItem directive format) P := by
  rw [createFormatItemAsserting, createFormatItem]
  cases getFormatItemFactories.lookup directive with
  | none => exact assertRetVal_yields hassert _ none hs
  | some factory => exact Outcome.yields_done hs

namespace Formatter

theorem parseLoopAsserting_yields (pattern : Bytes) (index : Nat) (literal : Bytes) (items : List (Option FormatItem)) :
    ∀ s, P s → (parseLoopAsserting assertFailed pattern index literal items s).Yields
      (parseLoop pattern index literal items) P := by
  fun_induction parseLoop pattern index literal items with
  | case1 index literal items hlt hne ih =>
      intro s hs
      rw [parseLoopAsserting, dif_pos hlt, if_pos hne]
      exact ih s hs
  | case2 index literal items hlt heq hlt' directive hpercent ih =>
      intro s hs
      rw [parseLoopAsserting, dif_pos hlt, if_neg heq, dif_pos hlt', if_pos hpercent]
      exact ih s hs
  | case3 index literal items hlt heq hlt' directive hd hopen hc =>
      intro s hs
      rw [parseLoopAsserting, dif_pos hlt, if_neg heq, dif_pos hlt', if_neg hd]
      simp only [if_pos hopen]
      split
      · exact assertRetVal_yields hassert _ _ hs
      · rename_i hsome
        cases hc.symm.trans hsome
  | case4 index literal items hlt heq hlt' directive hd flushed hopen closingBrace hc hne hle itemFormat ih =>
      intro s hs
      rw [parseLoopAsserting, dif_pos hlt, if_neg heq, dif_pos hlt', if_neg hd]
      simp only [if_pos hopen]
      split
      · rename_i hnone
        cases hc.symm.trans hnone
      · rename_i hsome
        cases hc.symm.trans hsome
        rw [if_pos hne]
        exact (createFormatItemAsserting_yields hassert _ _ hs).bind fun s hs' => ih s hs'
  | case5 index literal items hlt heq hlt' directive hd hopen closingBrace hc hempty =>
      intro s hs
      rw [parseLoopAsserting, dif_pos hlt, if_neg heq, dif_pos hlt', if_neg hd]
      simp only [if_pos hopen]
      split
      · exact assertRetVal_yields hassert _ _ hs
      · rename_i hsome
        cases hc.symm.trans hsome
        rw [if_neg hempty]
        exact assertRetVal_yields hassert _ _ hs
  | case6 index literal items hlt heq hlt' directive hd flushed hbare ih =>
      intro s hs
      rw [parseLoopAsserting, dif_pos hlt, if_neg heq, dif_pos hlt', if_neg hd]
      simp only [if_neg hbare]
      exact (createFormatItemAsserting_yields hassert _ _ hs).bind fun s hs' => ih s hs'
  | case7 index literal items hlt heq hend =>
      intro s hs
      rw [parseLoopAsserting, dif_pos hlt, if_neg heq, dif_neg hend]
      exact assertRetVal_yields hassert _ _ hs
  | case8 index literal items hend =>
      intro s hs
      rw [parseLoopAsserting, dif_neg hend]
      exact Outcome.yields_done hs

theorem nonNullAsserting_yields (items : List (Option FormatItem)) {s : S} (hs : P s) :
    (nonNullAsserting assertFailed items s).Yields
      (match nonNull items with
        | none => .error (-3)
        | some items => .ok items) P := by
  induction items with
  | nil => exact Outcome.yields_done hs
  | cons item items ih =>
      cases item with
      | none => exact assertRetVal_yields hassert _ _ hs
      | some item =>
          refine ih.bind fun s' hs' => ?_
          rw [nonNull]
          cases nonNull items with
          | none => exact Outcome.yields_done hs'
          | some items => exact Outcome.yields_done hs'

/-- With the assertions, `parse` returns what it returns without them. -/
theorem parseAsserting_yields (pattern : Bytes) {s : S} (hs : P s) :
    (parseAsserting assertFailed pattern s).Yields (parse pattern) P := by
  refine (parseLoopAsserting_yields hassert pattern 0 [] [] s hs).bind fun s' hs' => ?_
  rw [parse]
  cases parseLoop pattern 0 [] [] with
  | error code => exact Outcome.yields_done hs'
  | ok result => exact nonNullAsserting_yields hassert _ hs'

theorem construct_yields {pattern : Bytes} {F : Formatter} (h : Formatter.new pattern = some F) {s : S} (hs : P s) :
    (construct assertFailed pattern s).Yields F P := by
  refine (parseAsserting_yields hassert pattern hs).bind fun s' hs' => ?_
  unfold Formatter.new at h
  split at h
  · rename_i items hitems
    cases h
    simp only [hitems, dite_true]
    exact Outcome.yields_done hs'
  · cases h

theorem construct_throws {pattern : Bytes} (h : Formatter.new pattern = none) {s : S} (hs : P s) :
    (construct assertFailed pattern s).Throws P := by
  refine (parseAsserting_yields hassert pattern hs).bind_throws fun s' hs' => ?_
  unfold Formatter.new at h
  split at h
  · cases h
  · rename_i code hcode
    simp only [hcode]
    exact ⟨s', rfl, hs'⟩

end Formatter

end

end Pans
