import Mathlib.Data.List.Induction
import Pans.Logger.Lemmas.LogLine
import Pans.Logger.Statement

/-!
# What a log statement submits

The stream takes the insertions up to the first that fails. From then on it is bad and takes nothing more, but the
operands are evaluated all the same.
-/

namespace Pans

namespace Insertion

theorem content_append (before after : List (Insertion × AppendAllocations)) :
    content (before ++ after) = content before ++ content after := List.flatMap_append

theorem content_snoc (taken : List (Insertion × AppendAllocations)) (insertion : Insertion)
    (allocations : AppendAllocations) :
    content (taken ++ [(insertion, allocations)]) = content taken ++ insertion.bytes := by
  rw [content_append, content, content, List.flatMap_singleton]

theorem extent_snoc (taken : List (Insertion × AppendAllocations)) (insertion : Insertion)
    (allocations : AppendAllocations) :
    extent (taken ++ [(insertion, allocations)]) =
      ((extent taken).extend logMessageInlineCapacity insertion.bytes.length allocations).getD (extent taken) := by
  rw [extent, List.foldl_append]
  rfl

theorem extent_le (insertions : List (Insertion × AppendAllocations)) :
    (extent insertions).size ≤ (content insertions).length ∧ logMessageInlineCapacity ≤ (extent insertions).room := by
  induction insertions using List.reverseRecOn with
  | nil => exact ⟨Nat.le_refl _, Nat.le_refl _⟩
  | append_singleton taken insertion ih =>
      obtain ⟨insertion, allocations⟩ := insertion
      rw [extent_snoc, content_snoc, List.length_append]
      cases hextend : (extent taken).extend logMessageInlineCapacity insertion.bytes.length allocations with
      | none => exact ⟨Nat.le_add_right_of_le ih.1, ih.2⟩
      | some extent' =>
          obtain ⟨hsize, hroom⟩ := Extent.extend_le hextend
          exact ⟨hsize ▸ Nat.add_le_add_right ih.1 _, Nat.le_trans ih.2 hroom⟩

/-- No storage is needed where the text fits into the array. -/
theorem Fails.of_fits {taken : List (Insertion × AppendAllocations)} {insertion : Insertion}
    {allocations : AppendAllocations} (h : insertion.Fails taken allocations)
    (hfits : (content (taken ++ [(insertion, allocations)])).length ≤ logMessageInlineCapacity) :
    insertion = throws ∨ insertion.Negative := by
  refine or_assoc.mpr h |>.resolve_right fun hrefused => ?_
  obtain ⟨hsize, hroom⟩ := extent_le taken
  rw [content_snoc, List.length_append] at hfits
  rw [Extent.extend_of_room (by omega)] at hrefused
  cases hrefused

/-- An operand throws. -/
def throwing (insertions : List (Insertion × AppendAllocations)) : Bool :=
  insertions.any fun insertion => match insertion.1 with
    | throws => true
    | _ => false

end Insertion

namespace SmallStreamBuffer

theorem toCharType_toIntType (character : Byte) : toCharType (toIntType character) = character := by
  simp [toCharType, toIntType]

theorem toIntType_ne_eof (character : Byte) : toIntType character ≠ eof := by
  intro h
  have hsame : character.toUInt32 = (-1 : Int32).toUInt32 := congrArg Int32.toUInt32 h
  have hnat : character.toNat = (-1 : Int32).toUInt32.toNat := by rw [← hsame, UInt8.toNat_toUInt32]
  exact absurd hnat (Nat.ne_of_lt (Nat.lt_trans character.toNat_lt (by decide)))

end SmallStreamBuffer

namespace LogLine

/-- The line has the text of the insertions in its buffer. -/
structure Holds (line : LogLine) (logger : LoggerId) (level : LogLevel) (context : LogContext)
    (taken : List (Insertion × AppendAllocations)) : Prop where
  logger : line.logger = logger
  level : line.level = level
  context : line.context = context
  text : line.inlineBuffer.Occupies (Insertion.extent taken) (Insertion.content taken)

variable {line : LogLine} {logger : LoggerId} {level : LogLevel} {context : LogContext}
  {taken : List (Insertion × AppendAllocations)}

theorem new_holds : (new logger level context).Holds logger level context [] :=
  ⟨rfl, rfl, rfl, InlineBuffer.new_occupies⟩

/-- A bad stream is left alone. -/
theorem perform_bad (hbad : line.badbit = true) {insertion : Insertion} (hthrows : insertion ≠ .throws)
    (allocations : AppendAllocations) : line.perform allocations insertion = .done line () := by
  cases insertion with
  | write data count readable => exact if_pos hbad
  | put character => exact if_pos hbad
  | throws => exact absurd rfl hthrows

/-- A good stream has taken an insertion, or it has gone bad with the text as it was. -/
def Takes (line' : LogLine) (logger : LoggerId) (level : LogLevel) (context : LogContext)
    (taken : List (Insertion × AppendAllocations)) (insertion : Insertion) (allocations : AppendAllocations) : Prop :=
  line'.badbit = false ∧ ¬insertion.Fails taken allocations ∧
      line'.Holds logger level context (taken ++ [(insertion, allocations)]) ∨
    line'.badbit = true ∧ insertion.Fails taken allocations ∧ line'.Holds logger level context taken

/-- A buffer that an insertion has been written to. -/
theorem Holds.extended (h : line.Holds logger level context taken) (insertion : Insertion)
    {allocations : AppendAllocations} {extent : Extent}
    (hextend :
      (Insertion.extent taken).extend logMessageInlineCapacity insertion.bytes.length allocations = some extent)
    {buffer : InlineBuffer logMessageInlineCapacity}
    (hbuffer : buffer.Occupies extent (Insertion.content taken ++ insertion.bytes)) (badbit : Bool) :
    Holds { line with inlineBuffer := buffer, badbit } logger level context (taken ++ [(insertion, allocations)]) := by
  refine ⟨h.logger, h.level, h.context, ?_⟩
  rwa [Insertion.extent_snoc, hextend, Insertion.content_snoc]

theorem Holds.write_takes (h : line.Holds logger level context taken) (hgood : line.badbit = false) {data : Chars}
    {count : Int} (readable : count ≤ data.val.length) (allocations : AppendAllocations) :
    ∃ line', line.write data count allocations = .done line' () ∧
      line'.Takes logger level context taken (.write data count readable) allocations := by
  rw [write, if_neg (by simp [hgood]), dif_pos data.property]
  by_cases hcount : count < 0
  · have hnone : SmallStreamBuffer.xsputn line.inlineBuffer data count allocations = .done line.inlineBuffer 0 :=
      if_pos (Int.le_of_lt hcount)
    rw [hnone]
    refine ⟨_, rfl, .inr ⟨?_, .inr (.inl hcount), ⟨h.logger, h.level, h.context, h.text⟩⟩⟩
    exact decide_eq_true (Int.ne_of_gt hcount)
  rcases h.text.perform (.xsputn data count readable) allocations with
    ⟨hrefused, hthrew⟩ | ⟨extent, buffer, hextend, hdone, hbuffer⟩
  · rw [Outcome.bind_done_eq_threw.mp hthrew]
    exact ⟨_, rfl, .inr ⟨rfl, .inr (.inr hrefused), ⟨h.logger, h.level, h.context, h.text⟩⟩⟩
  · obtain ⟨written, hwritten, hresult⟩ := Outcome.bind_done_eq_done.mp hdone
    simp only [Write.result, Write.Result.size.injEq, Int.max_eq_left (Int.not_lt.mp hcount)] at hresult
    rw [hwritten]
    have hline' := h.extended (.write data count readable) hextend hbuffer
    refine ⟨_, rfl, .inl ⟨decide_eq_false (not_not.mpr hresult), ?_, hline' _⟩⟩
    rintro (hthrows | hnegative | hrefused)
    · cases hthrows
    · exact hcount hnegative
    · cases hextend.symm.trans hrefused

theorem Holds.put_takes (h : line.Holds logger level context taken) (hgood : line.badbit = false) (character : Byte)
    (allocations : AppendAllocations) :
    ∃ line', line.put character allocations = .done line' () ∧
      line'.Takes logger level context taken (.put character) allocations := by
  have heof := SmallStreamBuffer.toIntType_ne_eof character
  let write : Write := .overflow (SmallStreamBuffer.toIntType character)
  have hbytes : write.bytes = [character] := by
    simp only [write, Write.bytes, if_neg heof, SmallStreamBuffer.toCharType_toIntType]
  rw [put, if_neg (by simp [hgood])]
  have hperform := h.text.perform write allocations
  rw [hbytes] at hperform
  rcases hperform with ⟨hrefused, hthrew⟩ | ⟨extent, buffer, hextend, hdone, hbuffer⟩
  · rw [Outcome.bind_done_eq_threw.mp hthrew]
    exact ⟨_, rfl, .inr ⟨rfl, .inr (.inr hrefused), ⟨h.logger, h.level, h.context, h.text⟩⟩⟩
  · obtain ⟨result, hwritten, hresult⟩ := Outcome.bind_done_eq_done.mp hdone
    simp only [write, Write.result, if_neg heof, Write.Result.character.injEq] at hresult
    rw [hwritten, hresult]
    refine ⟨_, rfl, .inl ⟨decide_eq_false heof, ?_, h.extended (.put character) hextend hbuffer _⟩⟩
    rintro (hthrows | hnegative | hrefused)
    · cases hthrows
    · exact hnegative
    · cases hextend.symm.trans hrefused

theorem Holds.perform_takes (h : line.Holds logger level context taken) (hgood : line.badbit = false)
    {insertion : Insertion} (hthrows : insertion ≠ .throws) (allocations : AppendAllocations) :
    ∃ line', line.perform allocations insertion = .done line' () ∧
      line'.Takes logger level context taken insertion allocations := by
  cases insertion with
  | write data count readable => exact h.write_takes hgood readable allocations
  | put character => exact h.put_takes hgood character allocations
  | throws => exact absurd rfl hthrows

theorem Holds.inserted (h : line.Holds logger level context taken) {insertion : Insertion}
    (hthrows : insertion ≠ .throws) (allocations : AppendAllocations) :
    ∃ line' taken', line.perform allocations insertion = .done line' () ∧ line'.Holds logger level context taken' := by
  cases hbad : line.badbit with
  | true => exact ⟨line, taken, perform_bad hbad hthrows allocations, h⟩
  | false =>
      obtain ⟨line', hdone, ⟨_, _, hline'⟩ | ⟨_, _, hline'⟩⟩ := h.perform_takes hbad hthrows allocations
      · exact ⟨line', _, hdone, hline'⟩
      · exact ⟨line', _, hdone, hline'⟩

/-- The destructor of a line submits the text that it has. -/
theorem Holds.destroy (h : line.Holds logger level context taken) (loggers : Loggers) (submitted : Submitted) :
    line.destroy loggers submitted =
      .done (submitted ++ [(logger, context.getRecord level (loggers logger).name (Insertion.content taken))]) () := by
  have hrecord : line.getRecord loggers = _ := getRecord_of_view h.logger h.level h.context h.text.view_eq
  rw [LogLine.destroy, hrecord, h.logger]

/-! ## Whole statements -/

theorem throwing_cons {insertion : Insertion} (hthrows : insertion ≠ .throws) (allocations : AppendAllocations)
    (insertions : List (Insertion × AppendAllocations)) :
    Insertion.throwing ((insertion, allocations) :: insertions) = Insertion.throwing insertions := by
  cases insertion with
  | throws => exact absurd rfl hthrows
  | _ => rfl

theorem performAll_bad (hbad : line.badbit = true) (insertions : List (Insertion × AppendAllocations)) :
    line.performAll insertions = .ended line (Insertion.throwing insertions) := by
  induction insertions with
  | nil => rfl
  | cons first insertions ih =>
      obtain ⟨insertion, allocations⟩ := first
      by_cases hthrows : insertion = .throws
      · subst hthrows
        rfl
      · rw [throwing_cons hthrows, performAll, perform_bad hbad hthrows]
        exact ih

/-- The operands that the stream takes are those before the first that fails. -/
theorem Holds.performAll (h : line.Holds logger level context taken) (hgood : line.badbit = false)
    (insertions : List (Insertion × AppendAllocations)) :
    ∃ accepted rest line', insertions = accepted ++ rest ∧
      line.performAll insertions = .ended line' (Insertion.throwing insertions) ∧
      line'.Holds logger level context (taken ++ accepted) ∧
      (∀ before insertion allocations after, accepted = before ++ (insertion, allocations) :: after →
        ¬insertion.Fails (taken ++ before) allocations) ∧
      ∀ first ∈ rest.head?, first.1.Fails (taken ++ accepted) first.2 := by
  induction insertions generalizing line taken with
  | nil => exact ⟨[], [], line, rfl, rfl, by rwa [List.append_nil], by simp, nofun⟩
  | cons first insertions ih =>
      obtain ⟨insertion, allocations⟩ := first
      by_cases hthrows : insertion = .throws
      · subst hthrows
        refine ⟨[], _, line, rfl, rfl, by rwa [List.append_nil], by simp, ?_⟩
        rintro _ ⟨⟩
        exact .inl rfl
      obtain ⟨line', hdone, ⟨hgood', hpasses, hline'⟩ | ⟨hbad, hfails, hline'⟩⟩ :=
        h.perform_takes hgood hthrows allocations
      · obtain ⟨accepted, rest, line'', rfl, hall, hline'', haccepted, hrest⟩ := ih hline' hgood'
        simp only [List.append_assoc, List.singleton_append] at hline'' haccepted hrest
        refine ⟨_ :: accepted, rest, line'', rfl, ?_, hline'', ?_, hrest⟩
        · rw [throwing_cons hthrows, LogLine.performAll, hdone]
          exact hall
        · intro before insertion' allocations' after hsplit
          cases before with
          | nil =>
              cases hsplit
              rwa [List.append_nil]
          | cons first before =>
              cases hsplit
              exact haccepted before insertion' allocations' after rfl
      · refine ⟨[], _, line', rfl, ?_, by rwa [List.append_nil], by simp, ?_⟩
        · rw [throwing_cons hthrows, LogLine.performAll, hdone]
          exact performAll_bad hbad insertions
        · rintro _ ⟨⟩
          rwa [List.append_nil]

end LogLine

namespace Insertion

theorem not_throwing {insertions : List (Insertion × AppendAllocations)}
    (h : ∀ insertion ∈ insertions, insertion.1 ≠ throws) : throwing insertions = false := by
  rw [throwing, List.any_eq_false]
  intro insertion hmem
  split
  · rename_i hthrows
    exact absurd hthrows (h insertion hmem)
  · exact Bool.false_ne_true

/-- The FATAL record of an assertion says what `AssertFailure.message` does. -/
theorem content_operands {failure : AssertFailure} {backtrace : Bytes}
    {insertions : List (Insertion × AppendAllocations)}
    (h : insertions.map (·.1.bytes) = failure.operands backtrace) : content insertions = failure.message backtrace := by
  have hflatten : content insertions = (insertions.map (·.1.bytes)).flatten := List.flatMap_def
  rw [hflatten, h]
  simp [AssertFailure.operands, AssertFailure.message]

end Insertion

/-- A statement whose level is let through submits what was inserted before the first operand that fails. -/
theorem logStatement_shown {loggers : Loggers} {fuel : Nat} {logger : LoggerId} {level : LogLevel}
    (hshould : loggers.shouldLog fuel logger level = some true) (context : LogContext)
    (insertions : List (Insertion × AppendAllocations)) (submitted : Submitted) :
    ∃ accepted rest, insertions = accepted ++ rest ∧
      logStatement loggers fuel (some logger) level context insertions submitted =
        some (.ended
          (submitted ++ [(logger, context.getRecord level (loggers logger).name (Insertion.content accepted))])
          (Insertion.throwing insertions)) ∧
      (∀ before insertion allocations after, accepted = before ++ (insertion, allocations) :: after →
        ¬insertion.Fails before allocations) ∧
      ∀ first ∈ rest.head?, first.1.Fails accepted first.2 := by
  obtain ⟨accepted, rest, line, hsplit, hall, hline, haccepted, hrest⟩ :=
    (@LogLine.new_holds logger level context).performAll rfl insertions
  simp only [List.nil_append] at hline haccepted hrest
  refine ⟨accepted, rest, hsplit, ?_, haccepted, hrest⟩
  simp only [logStatement, hshould, Option.map_some, if_true, hall]
  exact congrArg some (Outcome.leaving_ended _ (hline.destroy loggers submitted))

end Pans
