import Pans.Buffer.Lemmas.InlineBuffer
import Pans.Formatter.Lemmas.Format
import Pans.Logger.Lemmas.Graph
import Pans.Logger.Submission

/-!
# Where an exception ends

Nothing that an appender throws leaves its `append`, and nothing that the formatter throws leaves `submit`.
-/

namespace Pans

/-! ## Formatting -/

section

variable {Tm σ : Type} {libc : Libc Tm} {onAssert : AssertHandler σ}

theorem assertRetNone_output (failure : AssertFailure) (st : ThreadState σ) (output : Bytes) :
    assertRetNone onAssert failure st output =
      (assertRetNone onAssert failure st []).map fun p => (p.1, output ++ p.2) := by
  simp only [assertRetNone, Option.map_map]
  congr 1
  funext st
  simp

theorem appendInteger_output (value : Int) (st : ThreadState σ) (output : Bytes) :
    appendInteger onAssert value st output =
      (appendInteger onAssert value st []).map fun p => (p.1, output ++ p.2) := by
  unfold appendInteger
  cases toChars 24 value with
  | some text => rfl
  | none => exact assertRetNone_output _ st output

theorem formatDateTime_output (format : Bytes) (record : LogRecordView) (st : ThreadState σ) (output : Bytes) :
    formatDateTime libc onAssert format record st output =
      (formatDateTime libc onAssert format record st []).map fun p => (p.1, output ++ p.2) := by
  unfold formatDateTime
  split
  · cases libc.localtime_r record.currentSecond with
    | none => exact assertRetNone_output _ st output
    | some tm =>
        simp only
        split
        · rfl
        · exact assertRetNone_output _ _ output
  · rfl

/-- What an item writes does not depend on what the buffer holds already. -/
theorem format_output (item : FormatItem) (record : LogRecordView) (st : ThreadState σ) (output : Bytes) :
    item.format libc onAssert record st output =
      (item.format libc onAssert record st []).map fun p => (p.1, output ++ p.2) := by
  cases item with
  | elapsed => exact appendInteger_output _ st output
  | threadId => exact appendInteger_output _ st output
  | fiberId => exact appendInteger_output _ st output
  | line => exact appendInteger_output _ st output
  | dateTime format => exact formatDateTime_output format record st output
  | _ => rfl

/-- An item fails to come back, or its text is longer than any object. -/
def Impossible (libc : Libc Tm) (onAssert : AssertHandler σ) (record : LogRecordView) (items : List FormatItem) : Prop :=
  ∃ item ∈ items, ∃ st, item.format libc onAssert record st [] = none ∨
    ∃ st' text, item.format libc onAssert record st [] = some (st', text) ∧ objectLimit ≤ text.length

variable (libc onAssert) in
/-- The items throw, or the buffer gets what they write. -/
theorem formatItemsInto_cases (record : LogRecordView) (allocations : Nat → AppendAllocations)
    (items : List FormatItem) (place : Nat) (st : ThreadState σ) {buffer : FormattedRecordBuffer} {content : Bytes}
    (h : buffer.Represents content) :
    (formatItemsInto libc onAssert record allocations items place st buffer = .undefined ∧
      Impossible libc onAssert record items) ∨
    (∃ p, formatItemsInto libc onAssert record allocations items place st buffer = .threw p) ∨
    ∃ st' buffer' text, formatItemsInto libc onAssert record allocations items place st buffer =
        .done (st', buffer') () ∧
      buffer'.Represents (content ++ text) ∧
      formatItems libc onAssert record items st content = some (st', content ++ text) := by
  induction items generalizing place st buffer content with
  | nil => exact .inr (.inr ⟨st, buffer, [], rfl, by rwa [List.append_nil], by rw [List.append_nil]; rfl⟩)
  | cons item items ih =>
      rw [formatItemsInto, FormatItem.formatInto]
      cases hitem : item.format libc onAssert record st [] with
      | none => exact .inl ⟨rfl, item, List.mem_cons_self, st, .inl hitem⟩
      | some p =>
          obtain ⟨st₁, text⟩ := p
          simp only
          split
          · rename_i hsmall
            rcases h.append ⟨text, hsmall⟩ (allocations place) with ⟨hthrew, _⟩ | ⟨buffer₁, hdone, hbuffer₁⟩
            · rw [hthrew]
              exact .inr (.inl ⟨_, rfl⟩)
            · rw [hdone]
              rcases ih (place + 1) st₁ hbuffer₁ with
                ⟨hundefined, himpossible⟩ | ⟨p, hthrew⟩ | ⟨st', buffer', rest, hrest, hbuffer', hitems⟩
              · obtain ⟨other, hmem, hother⟩ := himpossible
                exact .inl ⟨hundefined, other, List.mem_cons_of_mem _ hmem, hother⟩
              · exact .inr (.inl ⟨p, hthrew⟩)
              · refine .inr (.inr ⟨st', buffer', text ++ rest, hrest, ?_, ?_⟩)
                · rwa [← List.append_assoc]
                · rw [formatItems, format_output, hitem, Option.map_some, Option.bind_some, hitems,
                    List.append_assoc]
          · rename_i hlong
            exact .inl ⟨rfl, item, List.mem_cons_self, st, .inr ⟨st₁, text, hitem, Nat.le_of_not_lt hlong⟩⟩

end

namespace Submission

variable {σ : Type}

/-! ## Appending -/

/-- An `append` never throws. It gives the sink everything or nothing, and releases its lock. -/
theorem append_eq (s : Submission σ) (lockThrows : Bool) (appender : AppenderId) (level : LogLevel)
    (formattedRecord : Bytes) :
    s.append lockThrows appender level formattedRecord =
      .done (if level.toU8 < (s.levels appender).toU8 then s
        else if lockThrows then s.fwriteStderr operationFailed
        else { s with sinks := s.sinks ++ sinkCalls level formattedRecord appender }) () := by
  rw [append]
  split
  · rfl
  · cases lockThrows with
    | true => rfl
    | false =>
        by_cases hfatal : level = .fatal <;>
          simp [Outcome.bind, Outcome.tryCatch, lock, unlock, writeUnlocked, flushUnlocked, sinkCalls, hfatal]

theorem admitting_cons (levels : AppenderId → LogLevel) (level : LogLevel) (appender : AppenderId)
    (appenders : List AppenderId) (place : Nat) :
    admitting levels level (appender :: appenders) place =
      if level.toU8 < (levels appender).toU8 then admitting levels level appenders (place + 1)
      else (appender, place) :: admitting levels level appenders (place + 1) := by
  rw [admitting, List.zipIdx_cons, List.filter_cons]
  by_cases hlow : level.toU8 < (levels appender).toU8
  · rw [if_neg (by simpa using hlow), if_pos hlow, admitting]
  · rw [if_pos (by simpa using hlow), if_neg hlow, admitting]

/-- No appender keeps the record from those after it. -/
theorem appendAll_eq (lockThrows : Nat → Bool) (level : LogLevel) (formattedRecord : Bytes)
    (appenders : List AppenderId) (place : Nat) (s : Submission σ) :
    appendAll lockThrows level formattedRecord appenders place s =
      .done { s with
        sinks := s.sinks ++ delivered s.levels lockThrows level formattedRecord appenders place
        stderr := s.stderr ++ complaints s.levels lockThrows level appenders place } () := by
  induction appenders generalizing place s with
  | nil => simp [appendAll, delivered, complaints, admitting]
  | cons appender appenders ih =>
      rw [appendAll, append_eq, Outcome.bind]
      rw [delivered, complaints, admitting_cons]
      by_cases hlow : level.toU8 < (s.levels appender).toU8
      · rw [if_pos hlow, if_pos hlow, ih]
        rfl
      · rw [if_neg hlow, if_neg hlow]
        cases hthrows : lockThrows place with
        | true =>
            rw [if_pos rfl, ih, List.filter_cons_of_neg (by simp [hthrows]), List.filter_cons_of_pos (by simpa),
              List.flatMap_cons, ← List.append_assoc]
            rfl
        | false =>
            rw [if_neg (by decide), ih, List.filter_cons_of_pos (by simp [hthrows]),
              List.filter_cons_of_neg (by simp [hthrows]), List.flatMap_cons, ← List.append_assoc]
            rfl

/-! ## Submitting -/

variable {Tm : Type} {libc : Libc Tm} {onAssert : AssertHandler σ}

/-- A buffer that was written to the end holds what `Formatter::format` yields. -/
theorem format_done {s : Submission σ} {F : Formatter} {allocations : Nat → AppendAllocations}
    {record : LogRecordView} {thread : ThreadState σ} {buffer : FormattedRecordBuffer}
    (h : F.formatInto libc onAssert record allocations s.thread = .done (thread, buffer) ()) :
    ∃ text, F.format libc onAssert record s.thread [] = some (thread, text) ∧
      s.format libc onAssert F allocations record = .done { s with thread } text := by
  have hcases := formatItemsInto_cases libc onAssert record allocations F.items 0 s.thread
    InlineBuffer.new_represents
  rw [Formatter.formatInto] at h
  rw [h] at hcases
  rcases hcases with ⟨hundefined, _⟩ | ⟨p, hthrew⟩ | ⟨_, _, text, hdone, hbuffer, hitems⟩
  · cases hundefined
  · cases hthrew
  · cases hdone
    refine ⟨text, hitems, ?_⟩
    rw [format, Formatter.formatInto, h]
    simp only [Outcome.bind, hbuffer.view_eq, List.nil_append, Outcome.within]

theorem format_threw {s : Submission σ} {F : Formatter} {allocations : Nat → AppendAllocations}
    {record : LogRecordView} {thread : ThreadState σ} {buffer : FormattedRecordBuffer}
    (h : F.formatInto libc onAssert record allocations s.thread = .threw (thread, buffer)) :
    s.format libc onAssert F allocations record = .threw { s with thread } := by
  rw [format, h]
  rfl

theorem formatInto_undefined {F : Formatter} {allocations : Nat → AppendAllocations} {record : LogRecordView}
    {thread : ThreadState σ} (h : F.formatInto libc onAssert record allocations thread = .undefined) :
    Impossible libc onAssert record F.items := by
  have hcases := formatItemsInto_cases libc onAssert record allocations F.items 0 thread
    InlineBuffer.new_represents
  rw [Formatter.formatInto] at h
  rw [h] at hcases
  rcases hcases with ⟨_, himpossible⟩ | ⟨p, hthrew⟩ | ⟨_, _, _, hdone, _⟩
  · exact himpossible
  · cases hthrew
  · cases hdone

/-- The handler of the `try` block takes whatever formatting throws, before any appender is reached. -/
theorem formatAndAppend_of_threw {faults : Faults} {this : Logger.Impl} {record : LogRecordView} {s : Submission σ}
    {thread : ThreadState σ} {buffer : FormattedRecordBuffer}
    (h : this.formatter.formatInto libc onAssert record faults.allocations s.thread = .threw (thread, buffer)) :
    formatAndAppend libc onAssert faults this record s =
      .done { s with thread, stderr := s.stderr ++ formattingFailed } () := by
  rw [formatAndAppend, format_threw h]
  rfl

theorem formatAndAppend_of_done {faults : Faults} {this : Logger.Impl} {record : LogRecordView} {s : Submission σ}
    {thread : ThreadState σ} {buffer : FormattedRecordBuffer}
    (h : this.formatter.formatInto libc onAssert record faults.allocations s.thread = .done (thread, buffer) ()) :
    ∃ text, this.formatter.format libc onAssert record s.thread [] = some (thread, text) ∧
      formatAndAppend libc onAssert faults this record s =
        .done { s with
          thread
          sinks := s.sinks ++ delivered s.levels faults.lockThrows record.level text this.appenders 0
          stderr := s.stderr ++ complaints s.levels faults.lockThrows record.level this.appenders 0 } () := by
  obtain ⟨text, hformat, hdone⟩ := format_done h
  refine ⟨text, hformat, ?_⟩
  rw [formatAndAppend, hdone, Outcome.bind, appendAll_eq, Outcome.tryCatch]

theorem formatAndAppend_of_undefined {faults : Faults} {this : Logger.Impl} {record : LogRecordView}
    {s : Submission σ}
    (h : this.formatter.formatInto libc onAssert record faults.allocations s.thread = .undefined) :
    formatAndAppend libc onAssert faults this record s = .undefined := by
  rw [formatAndAppend, format, h]
  rfl

theorem unlock_lock (s : Submission σ) (held : HeldLock) : (s.lock held).unlock held = s := by
  rw [lock, unlock, List.erase_cons_head]

/-- The record is formatted and handed on by the target of the chain, which holds its lock meanwhile. -/
theorem submit_eq {faults : Faults} {logger : LoggerId} {chain : List LoggerId} {fuel : Nat} {s : Submission σ}
    (h : s.loggers.RootChain (some logger) chain) (hfuel : chain.length ≤ fuel) (record : LogRecordView) :
    submit libc onAssert faults fuel logger record s =
      match s.loggers.target chain with
      | none => .done s ()
      | some target =>
          if s.loggers.Admits chain record.level then
            (formatAndAppend libc onAssert faults (s.loggers target) record (s.lock (.logger target))).within
              fun s => s.unlock (.logger target)
          else .done s () := by
  induction chain generalizing logger fuel with
  | nil => cases h
  | cons first chain ih =>
      cases h with
      | link h =>
          obtain ⟨fuel, rfl⟩ := Nat.exists_eq_add_one.mpr (Nat.lt_of_lt_of_le (Nat.succ_pos _) hfuel)
          rw [submit]
          split
          · rename_i hlow
            have hno : ¬s.loggers.Admits (first :: chain) record.level := fun hadmits => hadmits.head hlow
            simp only [if_neg hno]
            split <;> rfl
          · rename_i hlevel
            cases hown : (s.loggers first).appenders.isEmpty with
            | false => simp [Loggers.admits_own hown, Loggers.target_own hown, hlevel]
            | true =>
                simp only [Loggers.admits_root hown, Loggers.target_root hown, hlevel, not_false_eq_true, true_and,
                  if_true, unlock_lock]
                cases hroot : (s.loggers first).root with
                | none =>
                    rw [hroot] at h
                    cases h
                    rfl
                | some root =>
                    rw [hroot] at h
                    exact ih h (Nat.le_of_succ_le_succ hfuel)

section

variable {faults : Faults} {logger target : LoggerId} {record : LogRecordView} {s : Submission σ}
  {chain : List LoggerId} {fuel : Nat}

theorem submit_dropped (h : s.loggers.RootChain (some logger) chain) (hfuel : chain.length ≤ fuel)
    (hdropped : ¬(s.loggers.Admits chain record.level ∧ (s.loggers.target chain).isSome)) :
    submit libc onAssert faults fuel logger record s = .done s () := by
  rw [submit_eq h hfuel]
  cases htarget : s.loggers.target chain with
  | none => rfl
  | some target =>
      have hno : ¬s.loggers.Admits chain record.level := fun hadmits => hdropped ⟨hadmits, by rw [htarget]; rfl⟩
      simp only [if_neg hno]

variable (h : s.loggers.RootChain (some logger) chain) (hfuel : chain.length ≤ fuel)
  (hadmits : s.loggers.Admits chain record.level) (htarget : s.loggers.target chain = some target)

include h hfuel hadmits htarget

theorem submit_target :
    submit libc onAssert faults fuel logger record s =
      (formatAndAppend libc onAssert faults (s.loggers target) record (s.lock (.logger target))).within
        fun s => s.unlock (.logger target) := by
  rw [submit_eq h hfuel, htarget]
  exact if_pos hadmits

theorem submit_of_undefined
    (hformat : (s.loggers target).formatter.formatInto libc onAssert record faults.allocations s.thread = .undefined) :
    submit libc onAssert faults fuel logger record s = .undefined := by
  have hlocked : (s.loggers target).formatter.formatInto libc onAssert record faults.allocations
      (s.lock (.logger target)).thread = .undefined := hformat
  rw [submit_target h hfuel hadmits htarget, formatAndAppend_of_undefined hlocked]
  rfl

theorem submit_of_threw {thread : ThreadState σ} {buffer : FormattedRecordBuffer}
    (hformat : (s.loggers target).formatter.formatInto libc onAssert record faults.allocations s.thread =
      .threw (thread, buffer)) :
    submit libc onAssert faults fuel logger record s =
      .done { s with thread, stderr := s.stderr ++ formattingFailed } () := by
  have hlocked : (s.loggers target).formatter.formatInto libc onAssert record faults.allocations
      (s.lock (.logger target)).thread = .threw (thread, buffer) := hformat
  rw [submit_target h hfuel hadmits htarget, formatAndAppend_of_threw hlocked]
  simp [Outcome.within, lock, unlock]

theorem submit_of_done {thread : ThreadState σ} {buffer : FormattedRecordBuffer}
    (hformat : (s.loggers target).formatter.formatInto libc onAssert record faults.allocations s.thread =
      .done (thread, buffer) ()) :
    ∃ text, (s.loggers target).formatter.format libc onAssert record s.thread [] = some (thread, text) ∧
      submit libc onAssert faults fuel logger record s =
        .done { s with
          thread
          sinks := s.sinks ++
            delivered s.levels faults.lockThrows record.level text (s.loggers target).appenders 0
          stderr := s.stderr ++
            complaints s.levels faults.lockThrows record.level (s.loggers target).appenders 0 } () := by
  have hlocked : (s.loggers target).formatter.formatInto libc onAssert record faults.allocations
      (s.lock (.logger target)).thread = .done (thread, buffer) () := hformat
  obtain ⟨text, htext, hdone⟩ := formatAndAppend_of_done hlocked
  refine ⟨text, htext, ?_⟩
  rw [submit_target h hfuel hadmits htarget, hdone]
  simp [Outcome.within, lock, unlock]

end

variable (libc onAssert) in
/-- Nothing is thrown, and whatever comes back has left the locks and the configuration alone. -/
theorem submit_cases {logger : LoggerId} {chain : List LoggerId} {fuel : Nat} {s : Submission σ}
    (h : s.loggers.RootChain (some logger) chain) (hfuel : chain.length ≤ fuel) (faults : Faults)
    (record : LogRecordView) :
    submit libc onAssert faults fuel logger record s = .undefined ∨
      ∃ s', submit libc onAssert faults fuel logger record s = .done s' () ∧
        s'.held = s.held ∧ s'.loggers = s.loggers ∧ s'.levels = s.levels := by
  by_cases hadmits : s.loggers.Admits chain record.level
  · cases htarget : s.loggers.target chain with
    | none => exact .inr ⟨s, submit_dropped h hfuel (by simp [htarget]), rfl, rfl, rfl⟩
    | some target =>
        cases hformat : (s.loggers target).formatter.formatInto libc onAssert record faults.allocations s.thread with
        | undefined => exact .inl (submit_of_undefined h hfuel hadmits htarget hformat)
        | threw p => exact .inr ⟨_, submit_of_threw h hfuel hadmits htarget hformat, rfl, rfl, rfl⟩
        | done p _ =>
            obtain ⟨text, _, hdone⟩ := submit_of_done h hfuel hadmits htarget hformat
            exact .inr ⟨_, hdone, rfl, rfl, rfl⟩
  · exact .inr ⟨s, submit_dropped h hfuel fun hboth => hadmits hboth.1, rfl, rfl, rfl⟩

end Submission

end Pans
