import Pans.Formatter.Theorems
import Pans.Logger.Lemmas.Assert
import Pans.Logger.Lemmas.Calls
import Pans.Logger.Lemmas.DefaultLine
import Pans.Logger.Lemmas.History
import Pans.Logger.Lemmas.LogLine
import Pans.Logger.Lemmas.Off
import Pans.Logger.Lemmas.Program
import Pans.Logger.Lemmas.Submission
import Pans.Logger.Level

/-!
# Results about loggers
-/

namespace Pans

/-! ## Levels -/

/-- The text is read and written inside the array, and names the level that is returned, exactly if it is no longer
than the array. -/
theorem LogLevel.fromString_exact_iff (value : Bytes) :
    (∃ level, fromString value = some level ∧ ∀ other, level = other ↔ Names value other) ↔ value.length ≤ 6 := by
  constructor
  · rintro ⟨level, hlevel, _⟩
    by_contra hlong
    have hbeyond : 6 < 0 + value.length := by
      rw [Nat.zero_add]
      exact Nat.lt_of_not_le hlong
    have hnone := transformLoop_eq_none toUpper (CharArray.zeros 6) hbeyond (Nat.zero_le 6)
    rw [fromString, hnone] at hlevel
    cases hlevel
  · exact fun h => ⟨_, fromString_eq h, ofUpperValue_names value⟩

/-- Seven letters do not fit. -/
theorem LogLevel.fromString_warning :
    ¬∀ value, ∃ level, fromString value = some level ∧ ∀ other, level = other ↔ Names value other := by
  intro h
  obtain ⟨level, hlevel, _⟩ := h (ascii "WARNING")
  have hnone : fromString (ascii "WARNING") = none := by decide +kernel
  cases hlevel.symm.trans hnone

/-! ## Routing -/

section

variable {loggers : Loggers}

open RoutingCall

theorem foldl_traceAppend (logger : LoggerId) (level : LogLevel) (text : Bytes) (appenders : List AppenderId)
    (calls : List RoutingCall) :
    appenders.foldl (fun s appender => traceAppend logger appender level text s) calls =
      calls ++ appenders.map fun appender => .append logger appender text := by
  induction appenders generalizing calls with
  | nil => simp
  | cons appender appenders ih =>
      rw [List.foldl_cons, ih]
      simp [traceAppend]

theorem foldl_traceVisit (logger : LoggerId) (appenders : List AppenderId)
    (visits : List (LoggerId × AppenderId)) :
    appenders.foldl (fun s appender => traceVisit logger appender s) visits =
      visits ++ appenders.map fun appender => (logger, appender) := by
  induction appenders generalizing visits with
  | nil => simp
  | cons appender appenders ih =>
      rw [List.foldl_cons, ih]
      simp [traceVisit]

def deliveryCalls (loggers : Loggers) (render : Formatter → LogRecordView → Bytes) (logger : LoggerId)
    (record : LogRecordView) : List RoutingCall :=
  .format logger :: (loggers logger).appenders.map fun appender =>
    .append logger appender (render (loggers logger).formatter record)

theorem deliveryCalls_appender (render : Formatter → LogRecordView → Bytes) (logger : LoggerId)
    (record : LogRecordView) :
    (deliveryCalls loggers render logger record).filterMap RoutingCall.appender =
      (loggers logger).appenders.map fun appender => (logger, appender) := by
  simp only [deliveryCalls, List.filterMap_cons, RoutingCall.appender, List.filterMap_map]
  exact congrFun (List.filterMap_eq_map (f := fun appender => (logger, appender))) _

theorem submit_trace {logger : LoggerId} {chain : List LoggerId} {fuel : Nat}
    (h : loggers.RootChain (some logger) chain) (hfuel : chain.length ≤ fuel)
    (render : Formatter → LogRecordView → Bytes) (record : LogRecordView) :
    loggers.submit (traceFormat render) traceAppend fuel logger record [] =
      some (match loggers.target chain with
        | none => []
        | some target =>
            if loggers.Admits chain record.level then deliveryCalls loggers render target record else []) := by
  rw [Loggers.submit_eq h hfuel]
  cases loggers.target chain with
  | none => rfl
  | some target =>
      simp only [traceFormat, Option.map_some, foldl_traceAppend, List.nil_append, List.singleton_append]
      split <;> rfl

theorem logLevel_trace {logger : LoggerId} {chain : List LoggerId} {fuel : Nat}
    (h : loggers.RootChain (some logger) chain) (hfuel : chain.length ≤ fuel)
    (render : Formatter → LogRecordView → Bytes) (record : LogRecordView) :
    loggers.logLevel (traceFormat render) traceAppend fuel logger record [] =
      some (match loggers.target chain with
        | none => []
        | some target =>
            if loggers.Admits chain record.level then deliveryCalls loggers render target record else []) := by
  rw [Loggers.logLevel_eq_submit h hfuel]
  exact submit_trace h hfuel render record

theorem flush_trace {logger : LoggerId} {chain : List LoggerId} {fuel : Nat}
    (h : loggers.RootChain (some logger) chain) (hfuel : chain.length ≤ fuel) :
    loggers.flush traceVisit fuel logger [] =
      some (match loggers.target chain with
        | none => []
        | some target => (loggers target).appenders.map fun appender => (target, appender)) := by
  rw [Loggers.flush_eq h hfuel]
  cases loggers.target chain with
  | none => rfl
  | some target => simp only [foldl_traceVisit, List.nil_append]

/-- On every finite chain of root links, `shouldLog` foretells what `submit` does, the macros submit what a bare
`submit` would deliver, and `flush` and `sync` visit the appenders that an admitted record is handed to. -/
theorem routing_agrees (loggers : Loggers) (render : Formatter → LogRecordView → Bytes) (logger : LoggerId)
    (chain : List LoggerId) (h : loggers.RootChain (some logger) chain) (fuel : Nat) (hfuel : chain.length ≤ fuel)
    (record : LogRecordView) :
    ∃ logged calls visits,
      loggers.shouldLog fuel logger record.level = some logged ∧
      loggers.submit (traceFormat render) traceAppend fuel logger record [] = some calls ∧
      (logged = true ↔ ∃ target ∈ chain, (loggers target).appenders ≠ [] ∧
        calls = deliveryCalls loggers render target record) ∧
      (logged = false ↔ calls = []) ∧
      loggers.logLevel (traceFormat render) traceAppend fuel logger record [] = some calls ∧
      loggers.flush traceVisit fuel logger [] = some visits ∧
      loggers.sync traceVisit fuel logger [] = some visits ∧
      (loggers.Admits chain record.level → calls.filterMap RoutingCall.appender = visits) := by
  have hsubmit := submit_trace h hfuel render record
  have hlogged := Loggers.shouldLog_eq h hfuel record.level
  refine ⟨_, _, _, hlogged, hsubmit, ?_, ?_, logLevel_trace h hfuel render record, flush_trace h hfuel, ?_, ?_⟩
  · cases htarget : loggers.target chain with
    | none => simp [deliveryCalls]
    | some target =>
        have hmem := List.mem_of_find?_eq_some htarget
        have happenders := Loggers.target_appenders htarget
        by_cases hadmits : loggers.Admits chain record.level
        · simp only [hadmits, if_true, Option.isSome_some, and_self, decide_true, true_iff]
          exact ⟨target, hmem, happenders, rfl⟩
        · simp [hadmits, deliveryCalls]
  · cases htarget : loggers.target chain with
    | none => simp
    | some target =>
        by_cases hadmits : loggers.Admits chain record.level
        · simp [hadmits, deliveryCalls]
        · simp [hadmits]
  · rw [Loggers.sync_eq_flush, flush_trace h hfuel]
  · intro hadmits
    cases loggers.target chain with
    | none => rfl
    | some target => simp only [hadmits, if_true, deliveryCalls_appender]

def Loggers.childAndRoot : Loggers := fun logger =>
  let formatter : Formatter := ⟨ascii "%m%n", [.message, .newLine], by decide +kernel⟩
  if logger = 0 then ⟨ascii "root", .info, formatter, [7], none⟩
  else ⟨ascii "net", .debug, formatter, [], some 0⟩

theorem routing_agrees_child :
    ∃ calls, Loggers.childAndRoot.submit (traceFormat fun _ record => record.message) traceAppend 2 1
        LogRecordView.atFirstSecond [] = some calls ∧
      calls.filterMap RoutingCall.appender = [(0, 7)] := by
  obtain ⟨_, calls, visits, _, hcalls, _, _, _, hflush, _, hsame⟩ :=
    routing_agrees Loggers.childAndRoot (fun _ record => record.message) 1 [1, 0] (.link (.link .null)) 2
      (Nat.le_refl 2) LogRecordView.atFirstSecond
  have hvisits : visits = [(0, 7)] := by
    cases hflush
    rfl
  exact ⟨calls, hcalls, hvisits ▸ hsame (by decide)⟩

end

/-! ## Assertions that log -/

/-- The record never reaches an assertion that fails and is logged: the root logger drops it, or drops FATAL records,
or the first date item of its pattern finds its text, in the cache or by a conversion. -/
def NoReentry {Tm : Type} (libc : Libc Tm) (root : Logger.Impl) (cache : DateCache) (record : LogRecordView) : Prop :=
  record.level.toU8 < root.level.toU8 ∨ root.level = .off ∨ cache.lastSecond = record.currentSecond ∨
    ∀ format, firstDateFormat root.formatter.items = some format →
      (libc.dateText format record.currentSecond).isSome

/-- Submitting to the root logger comes back, whatever the clock says to the nested records, in exactly the
states without a re-entry. -/
theorem submit_returns_iff {Tm : Type} (libc : Libc Tm) (loggers : Loggers) (root : LoggerId)
    (happenders : (loggers root).appenders ≠ []) (record : LogRecordView) (st : ThreadState LogState) :
    (∀ surroundings, ∃ fuel, (submitAsserting libc loggers root surroundings fuel root record st).isSome) ↔
      NoReentry libc (loggers root) st.cache record := by
  constructor
  · intro hreturns
    by_contra hno
    simp only [NoReentry, not_or, not_forall, exists_prop] at hno
    obtain ⟨hlevel, hoff, hsecond, format, hfirst, hfails⟩ := hno
    -- The clock of the nested records stands still at the second of the record.
    let context : LogContext := ⟨record.timestamp, 0, 0, 0, [], [], 0⟩
    obtain ⟨fuel, hfuel⟩ := hreturns fun _ => (context, [])
    have htext : libc.dateText format record.currentSecond = none := Option.not_isSome_iff_eq_none.mp hfails
    have hclock : context.timestamp.toInt.tdiv 1000000000 = record.currentSecond := rfl
    have hnone := submit_stuck happenders hoff hclock hfirst htext fuel hlevel rfl hsecond
    rw [hnone] at hfuel
    cases hfuel
  · intro hno surroundings
    refine ⟨1, ?_⟩
    by_cases hlow : record.level.toU8 < (loggers root).level.toU8
    · rw [submit_dropped hlow, Option.isSome_some]
    rw [submit_isSome happenders hlow, Formatter.format]
    rcases hno with hlow' | hoff | hdate
    · exact absurd hlow' hlow
    · refine formatItems_returns (fun failure st => ?_) _ _ _
      simp [assertFailed, shouldLog_root happenders, LogLevel.fatal_lt_iff.mpr hoff]
    · obtain ⟨text, hready⟩ := exists_dateReady hdate
      obtain ⟨_, hformat⟩ := formatItems_eq st [] hready
      rw [hformat, Option.isSome_some]

def Logger.Impl.rootWith (formatter : Formatter) : Logger.Impl := ⟨ascii "root", .debug, formatter, [0], none⟩

def LogState.initial : LogState := ⟨fun _ => Appender.Impl.new, 0⟩

theorem submit_returns_full_date :
    ∃ F, Formatter.new (ascii "%d{%Y-%m-%d %H:%M:%S}") = some F ∧
      ∀ surroundings, ∃ fuel, (submitAsserting Libc.atFirstSecond (fun _ => Logger.Impl.rootWith F) 0 surroundings fuel 0
        LogRecordView.atFirstSecond ⟨DateCache.initial, LogState.initial⟩).isSome := by
  have hparse : Formatter.parse (ascii "%d{%Y-%m-%d %H:%M:%S}") = .ok [.dateTime (ascii "%Y-%m-%d %H:%M:%S")] := by
    decide +kernel
  refine ⟨_, Formatter.new_of_parse hparse,
    (submit_returns_iff _ (fun _ => Logger.Impl.rootWith ⟨_, _, hparse⟩) 0 (List.cons_ne_nil _ _) _ _).mpr ?_⟩
  refine .inr (.inr (.inr fun format hformat => ?_))
  cases hformat
  decide +kernel

/-- The bare `%d` has the empty format, which expands to nothing at any second. -/
theorem submit_bare_date_never_returns :
    ∃ F surroundings, Formatter.new (ascii "%d") = some F ∧
      ∀ fuel, submitAsserting Libc.atFirstSecond (fun _ => Logger.Impl.rootWith F) 0 surroundings fuel 0
        LogRecordView.atFirstSecond ⟨DateCache.initial, LogState.initial⟩ = none := by
  have hparse : Formatter.parse (ascii "%d") = .ok [.dateTime []] := by decide +kernel
  let context : LogContext := ⟨LogRecordView.atFirstSecond.timestamp, 0, 1, 0, ascii "main", ascii "formatter.cc", 133⟩
  refine ⟨_, fun _ => (context, []), Formatter.new_of_parse hparse, fun fuel => ?_⟩
  have hoff : LogLevel.debug ≠ LogLevel.off := by decide
  have hlevel : ¬LogRecordView.atFirstSecond.level.toU8 < LogLevel.debug.toU8 := by decide
  exact submit_stuck (List.cons_ne_nil _ _) hoff rfl rfl (by decide +kernel) fuel hlevel rfl (by decide +kernel)

/-! ## Steps that throw -/

section

open Submission

/-- Whatever storage and locks are refused, nothing is thrown out of `submit`, and its locks are released. A record
whose formatting throws reaches no sink. A record that is formatted reaches, complete and in list order, the sink of
each appender that admits it and whose own lock does not throw, and no other. -/
theorem submit_isolates_failures {Tm σ : Type} (libc : Libc Tm) (onAssert : AssertHandler σ) (faults : Faults)
    (logger : LoggerId) (record : LogRecordView) (s : Submission σ) (chain : List LoggerId)
    (h : s.loggers.RootChain (some logger) chain) (fuel : Nat) (hfuel : chain.length ≤ fuel) :
    (∀ s', submit libc onAssert faults fuel logger record s ≠ .threw s') ∧
    (∀ s', submit libc onAssert faults fuel logger record s = .done s' () →
      s'.held = s.held ∧ s'.loggers = s.loggers ∧ s'.levels = s.levels) ∧
    (¬(s.loggers.Admits chain record.level ∧ (s.loggers.target chain).isSome) →
      submit libc onAssert faults fuel logger record s = .done s ()) ∧
    ∀ target, s.loggers.Admits chain record.level → s.loggers.target chain = some target →
      let this := s.loggers target
      (this.formatter.formatInto libc onAssert record faults.allocations s.thread = .undefined →
        Impossible libc onAssert record this.formatter.items) ∧
      (∀ thread buffer,
        this.formatter.formatInto libc onAssert record faults.allocations s.thread = .threw (thread, buffer) →
        submit libc onAssert faults fuel logger record s =
          .done { s with thread, stderr := s.stderr ++ formattingFailed } ()) ∧
      ∀ thread buffer,
        this.formatter.formatInto libc onAssert record faults.allocations s.thread = .done (thread, buffer) () →
        ∃ text, this.formatter.format libc onAssert record s.thread [] = some (thread, text) ∧
          submit libc onAssert faults fuel logger record s =
            .done { s with
              thread
              sinks := s.sinks ++ delivered s.levels faults.lockThrows record.level text this.appenders 0
              stderr := s.stderr ++ complaints s.levels faults.lockThrows record.level this.appenders 0 } () := by
  have hcases := submit_cases libc onAssert h hfuel faults record
  refine ⟨?_, ?_, Submission.submit_dropped h hfuel, ?_⟩
  · intro s' hthrew
    rw [hthrew] at hcases
    rcases hcases with hundefined | ⟨_, hdone, _⟩
    · cases hundefined
    · cases hdone
  · intro s' hdone
    rw [hdone] at hcases
    rcases hcases with hundefined | ⟨_, heq, hunchanged⟩
    · cases hundefined
    · cases heq
      exact hunchanged
  · intro target hadmits htarget
    refine ⟨formatInto_undefined, ?_, ?_⟩
    · intro thread buffer hformat
      exact submit_of_threw h hfuel hadmits htarget hformat
    · intro thread buffer hformat
      exact submit_of_done h hfuel hadmits htarget hformat

def Submission.ofTwo (formatter : Formatter) : Submission Unit where
  loggers := fun logger =>
    if logger = 0 then ⟨ascii "root", .info, formatter, [7, 8, 7], none⟩
    else ⟨ascii "net", .debug, formatter, [], some 0⟩
  levels := fun _ => .debug
  thread := ⟨DateCache.initial, ()⟩
  held := []
  sinks := []
  stderr := []

/-- The lock of the second appender throws. The third place is the first appender again. -/
theorem submit_isolates_failures_second :
    ∃ F s', Formatter.new (ascii "%m%n") = some F ∧
      submit Libc.atFirstSecond (fun _ _ => none) ⟨fun _ => ⟨none, none, none⟩, fun place => place = 1⟩ 2 1
        LogRecordView.atFirstSecond (ofTwo F) = .done s' () ∧
      s'.sinks = [.write 7 (ascii "message\n"), .write 7 (ascii "message\n")] ∧
      s'.stderr = ascii "pans logger: app" := by
  have hparse : Formatter.parse (ascii "%m%n") = .ok [.message, .newLine] := by decide +kernel
  let F : Formatter := ⟨_, _, hparse⟩
  have hchain : (ofTwo F).loggers.RootChain (some 1) [1, 0] := .link (.link .null)
  have hadmits : (ofTwo F).loggers.Admits [1, 0] LogRecordView.atFirstSecond.level := by
    simp [Loggers.Admits, Loggers.way, ofTwo]
    decide
  obtain ⟨buffer, hformat⟩ : ∃ buffer, F.formatInto Libc.atFirstSecond (fun _ _ => none)
      LogRecordView.atFirstSecond (fun _ => ⟨none, none, none⟩) (ofTwo F).thread =
        .done ((ofTwo F).thread, buffer) () := ⟨_, rfl⟩
  obtain ⟨text, htext, hsubmit⟩ := ((submit_isolates_failures Libc.atFirstSecond (fun _ _ => none)
    ⟨fun _ => ⟨none, none, none⟩, fun place => place = 1⟩ 1 LogRecordView.atFirstSecond (ofTwo F) [1, 0] hchain 2
    (Nat.le_refl 2)).2.2.2 0 hadmits rfl).2.2 _ buffer hformat
  have hsinks : delivered (fun _ => .debug) (fun place => place = 1) .info (ascii "message\n") [7, 8, 7] 0 =
      [.write 7 (ascii "message\n"), .write 7 (ascii "message\n")] := by decide +kernel
  have hstderr : complaints (fun _ => .debug) (fun place => place = 1) .info [7, 8, 7] 0 =
      ascii "pans logger: app" := by decide +kernel
  cases htext
  exact ⟨F, _, Formatter.new_of_parse hparse, hsubmit, hsinks, hstderr⟩

end

/-! ## Formatted lines -/

section

variable (vsnprintf : Vsnprintf) (inlineBuffer : CharArray printfFormatInlineCapacity) (storage : PrintfStorage)
  (loggers : Loggers) (logger : LoggerId) (level : LogLevel) (context : LogContext) (submitted : Submitted)

/-- One record is submitted on each way out of `LogPrintf`. Its message is the formatted text, byte for byte, through
the array and through the vector alike, and the error text if a pass fails. Only storage that is refused leaves it
empty. -/
theorem logPrintf_submits_once (format : Bytes) :
    let text := vsnprintf.expand format
    let firstFails := (vsnprintf.call .first format inlineBuffer).1 < 0
    let secondFails := (vsnprintf.call .second format (List.replicate (text.length + 1) 0)).1 < 0
    let submits := fun (format : Option Bytes) (message : Bytes) =>
      logPrintf vsnprintf inlineBuffer storage loggers logger level context format submitted =
        .done (submitted ++ [(logger, context.getRecord level (loggers logger).name message)]) ()
    (storage.Granted →
      submits none (ascii "<null-format>") ∧
      (¬firstFails → text.length < 128 ∨ ¬secondFails → submits (some format) text) ∧
      (firstFails ∨ 128 ≤ text.length ∧ secondFails → submits (some format) (ascii "<format-error>"))) ∧
    ∀ format, ∃ message, (message = printfMessage vsnprintf inlineBuffer format ∨ message = [] ∧ ¬storage.Granted) ∧
      (submits format message ∨ ¬storage.Granted ∧
        logPrintf vsnprintf inlineBuffer storage loggers logger level context format submitted =
          .threw (submitted ++ [(logger, context.getRecord level (loggers logger).name message)])) := by
  intro text firstFails secondFails submits
  have hall : ∀ format, ∃ message,
      (message = printfMessage vsnprintf inlineBuffer format ∨ message = [] ∧ ¬storage.Granted) ∧
      (submits format message ∨ ¬storage.Granted ∧
        logPrintf vsnprintf inlineBuffer storage loggers logger level context format submitted =
          .threw (submitted ++ [(logger, context.getRecord level (loggers logger).name message)])) := by
    intro format
    have hline : LogLine.LeavesWith loggers logger level context storage _ _ :=
      formatLine_leavesWith vsnprintf inlineBuffer format
    obtain ⟨message, hmessage, hout⟩ := hline.leaving submitted
    exact ⟨message, hmessage, hout.imp_right And.symm⟩
  have hgranted : storage.Granted → ∀ format, submits format (printfMessage vsnprintf inlineBuffer format) := by
    intro hstorage format
    obtain ⟨message, hmessage | ⟨_, hrefused⟩, hout⟩ := hall format
    · subst hmessage
      exact hout.resolve_right fun hthrew => hthrew.1 hstorage
    · exact absurd hstorage hrefused
  refine ⟨fun hstorage => ⟨hgranted hstorage none, fun hfirst hfits => ?_, fun hfails => ?_⟩, hall⟩
  · have hmessage : printfMessage vsnprintf inlineBuffer (some format) = text := by
      refine if_neg fun hfails => hfails.elim hfirst fun hsecond => ?_
      exact hfits.elim (Nat.not_lt.mpr hsecond.1) fun hno => hno hsecond.2
    exact hmessage ▸ hgranted hstorage (some format)
  · have hmessage : printfMessage vsnprintf inlineBuffer (some format) = ascii "<format-error>" := if_pos hfails
    exact hmessage ▸ hgranted hstorage (some format)

end

theorem storeText_keeps_size (text array : Bytes) :
    (if array.isEmpty then [] else storeText text array).length = array.length := by
  cases array with
  | nil => rfl
  | cons b array =>
      simp only [List.isEmpty_cons, Bool.false_eq_true, if_false, storeText, List.length_append, List.length_take,
        List.length_cons, List.length_drop]
      omega

/-- No pass fails, whatever the format: it stands for the text. -/
def Vsnprintf.printing (text : Bytes) (h : text.length < 2 ^ 31) : Vsnprintf where
  expand := fun _ => text
  call := fun _ _ array => (text.length, if array.isEmpty then [] else storeText text array)
  keeps_size := fun _ _ array => storeText_keeps_size text array
  returns_size := fun _ _ _ _ => ⟨h, rfl⟩
  stores_text := fun _ _ _ _ hne => if_neg (by simpa using hne)

/-- A text of 128 bytes, the first of them a NUL, leaves no room in the array for the NUL behind it. -/
theorem logPrintf_submits_once_128 :
    ∃ record, logPrintf (.printing (0 :: List.replicate 127 (byte 'a')) (by simp)) (CharArray.zeros _)
        ⟨true, ⟨some 0, some 0, some 0⟩⟩ Loggers.childAndRoot 1 .info ⟨0, 0, 1, 0, [], [], 1⟩ (some (ascii "%s")) [] =
          .done [(1, record)] () ∧
      record.message = 0 :: List.replicate 127 (byte 'a') := by
  have hsubmits := ((logPrintf_submits_once (.printing (0 :: List.replicate 127 (byte 'a')) (by simp))
    (CharArray.zeros _) ⟨true, ⟨some 0, some 0, some 0⟩⟩ Loggers.childAndRoot 1 .info ⟨0, 0, 1, 0, [], [], 1⟩ []
    (ascii "%s")).1 (by simp [PrintfStorage.Granted])).2.1 (by simp [Vsnprintf.printing])
    (.inr (by simp [Vsnprintf.printing]))
  exact ⟨_, hsubmits, rfl⟩

/-! ## Log statements -/

/-- A statement whose level is let through submits one record, on every way out. The message is what was inserted
before the first operand that throws, is given a negative count or is refused storage; while the text fits into the
inline buffer, no storage is needed. A statement that throws is one with an operand that throws, and a bad stream does
not keep it from being evaluated. Any other statement builds no line. -/
theorem logStatement_submits (loggers : Loggers) {logger : LoggerId} {chain : List LoggerId} {fuel : Nat}
    (h : loggers.RootChain (some logger) chain) (hfuel : chain.length ≤ fuel) (level : LogLevel) (context : LogContext)
    (insertions : List (Insertion × AppendAllocations)) (submitted : Submitted) :
    let statement := logStatement loggers fuel (some logger) level context insertions submitted
    let submits := fun message => submitted ++ [(logger, context.getRecord level (loggers logger).name message)]
    let shown := loggers.Admits chain level ∧ (loggers.target chain).isSome
    (¬shown → statement = some (.done submitted ())) ∧
    (shown → ∃ accepted rest, insertions = accepted ++ rest ∧
      statement = some (.ended (submits (Insertion.content accepted)) (Insertion.throwing insertions)) ∧
      (∀ before insertion allocations after, accepted = before ++ (insertion, allocations) :: after →
        ¬insertion.Fails before allocations) ∧
      ∀ first ∈ rest.head?, first.1.Fails accepted first.2) ∧
    (shown → (∀ before insertion allocations after, insertions = before ++ (insertion, allocations) :: after →
        ¬insertion.Fails before allocations) →
      statement = some (.done (submits (Insertion.content insertions)) ()) ∧
      ∀ (failure : AssertFailure) backtrace, insertions.map (·.1.bytes) = failure.operands backtrace →
        Insertion.content insertions = failure.message backtrace) ∧
    ∀ before insertion allocations,
      (Insertion.content (before ++ [(insertion, allocations)])).length ≤ logMessageInlineCapacity →
      (Insertion.Fails before insertion allocations ↔ insertion = .throws ∨ insertion.Negative) := by
  intro statement submits shown
  have hshould : loggers.shouldLog fuel logger level = some (decide shown) := Loggers.shouldLog_eq h hfuel level
  have hends (hshown : shown) :=
    logStatement_shown (hshould.trans (congrArg some (decide_eq_true hshown))) context insertions submitted
  refine ⟨fun hhidden => ?_, hends,
    fun hshown hnone => ⟨?_, fun failure backtrace => Insertion.content_operands⟩,
    fun before insertion allocations hfits => ⟨fun hfails => hfails.of_fits hfits, fun h => or_assoc.mp (.inl h)⟩⟩
  · simp only [statement, logStatement, hshould, Option.map_some, decide_eq_true_eq, if_neg hhidden]
  · obtain ⟨accepted, rest, rfl, hstatement, _, hrest⟩ := hends hshown
    show logStatement _ _ _ _ _ _ _ = _
    have hthrowing : Insertion.throwing (accepted ++ rest) = false := by
      refine Insertion.not_throwing fun insertion hmem hthrows => ?_
      obtain ⟨before, after, hsplit⟩ := List.append_of_mem hmem
      exact hnone before insertion.1 insertion.2 after hsplit (.inl hthrows)
    cases rest with
    | nil => rw [hstatement, hthrowing, List.append_nil, Outcome.ended, if_neg Bool.false_ne_true]
    | cons first rest => exact absurd (hrest first rfl) (hnone accepted first.1 first.2 rest rfl)

/-- The second text finds no storage, and the operand behind it throws: the record has the first text. -/
theorem logStatement_submits_first :
    let long : Chars := ⟨List.replicate 127 (byte 'x'), by decide +kernel⟩
    let refused : AppendAllocations := ⟨none, none, none⟩
    let insertions := [(.text ⟨ascii "ab", by decide⟩, refused), (.text long, refused), (.throws, refused)]
    ∃ accepted rest, insertions = accepted ++ rest ∧ Insertion.content accepted = ascii "ab" ∧
      logStatement Loggers.childAndRoot 2 (some 1) .info ⟨0, 0, 1, 0, [], [], 1⟩ insertions [] =
        some (.threw [(1, LogContext.getRecord ⟨0, 0, 1, 0, [], [], 1⟩ .info (ascii "net") (ascii "ab"))]) := by
  intro long refused insertions
  have hrun : logStatement Loggers.childAndRoot 2 (some 1) .info ⟨0, 0, 1, 0, [], [], 1⟩ insertions [] =
      some (.threw [(1, LogContext.getRecord ⟨0, 0, 1, 0, [], [], 1⟩ .info (ascii "net") (ascii "ab"))]) := by
    decide +kernel
  obtain ⟨accepted, rest, hsplit, hstatement, _⟩ := (logStatement_submits Loggers.childAndRoot
    (.link (.link .null) : Loggers.childAndRoot.RootChain (some 1) [1, 0]) (Nat.le_refl 2) .info ⟨0, 0, 1, 0, [], [], 1⟩
    insertions []).2.1 (by decide)
  refine ⟨accepted, rest, hsplit, ?_, hrun⟩
  rw [hrun] at hstatement
  simp only [Outcome.ended, Option.some.injEq] at hstatement
  split at hstatement
  · simp only [Outcome.threw.injEq, List.nil_append, List.cons.injEq, Prod.mk.injEq] at hstatement
    exact (congrArg LogRecordView.message hstatement.1.2).symm
  · cases hstatement

/-! ## Lines read back -/

section

variable {Tm σ : Type}

/-- Whatever the other formatters with the same date format, where every date is converted to a text of 1 to 19 bytes
and no record of the default formatter is of second 0, it writes lines that read back as what they show exactly if no
date contains a dot, no file name a tab and no message a newline. -/
theorem default_lines_read_back_iff (libc : Libc Tm) (onAssert : AssertHandler σ) (turns : List Turn) (rest : σ)
    (hcarries : ∀ turn ∈ turns,
      Carries libc defaultDateFormat (turn.formatter defaultFormatter).items turn.record.currentSecond)
    (hzero : ∀ record ∈ ownRecords turns, record.currentSecond ≠ 0) :
    ∃ st outputs, defaultFormatter.formatTurns libc onAssert turns ⟨DateCache.initial, rest⟩ = some (st, outputs) ∧
      (DefaultLine.lineCode.decodeAll outputs.flatten = some ((ownRecords turns).map (·.shown libc)) ↔
        ∀ record ∈ ownRecords turns, byte '.' ∉ libc.convert defaultDateFormat record.currentSecond ∧
          byte '\t' ∉ record.fileName ∧ byte '\n' ∉ record.message) := by
  have hsound : Sound libc defaultDateFormat DateCache.initial := .inl rfl
  obtain ⟨st, hformat⟩ := @Sound.formatTurns _ _ _ _ onAssert _ _ ⟨DateCache.initial, rest⟩ hsound hcarries
    fun record hrecord => .inl (hzero record hrecord)
  refine ⟨st, _, hformat, ?_⟩
  have houtput : ((ownRecords turns).map fun record => libc.render defaultFormatter.items record).flatten =
      ((ownRecords turns).map (·.shown libc)).flatMap fun entry => entry.text ++ [byte '\n'] := by
    rw [List.flatMap_map, List.flatMap_def]
    exact congrArg List.flatten (List.map_congr_left fun record _ => render_default)
  rw [DefaultLine.decodeAll_eq_some_iff, and_iff_left houtput, List.forall_mem_map]
  exact forall₂_congr fun record _ => shown_plain_iff

end

/-- The message of the second record looks like the head of another line. -/
theorem default_lines_read_back_two :
    let first := LogRecordView.atFirstSecond
    let second := { first with message := ascii "1970-01-01 00:00:01.000000\tthread=2" }
    ∃ st outputs, defaultFormatter.formatTurns Libc.atFirstSecond (fun _ _ => none) [.own first, .own second]
        ⟨DateCache.initial, ()⟩ = some (st, outputs) ∧
      DefaultLine.lineCode.decodeAll outputs.flatten =
        some [first.shown Libc.atFirstSecond, second.shown Libc.atFirstSecond] := by
  intro first second
  have hsome : (Libc.atFirstSecond.dateText defaultDateFormat 1).isSome := by decide +kernel
  have hcarries (record : LogRecordView) (h : record.currentSecond = 1) :
      Carries Libc.atFirstSecond defaultDateFormat defaultFormatter.items record.currentSecond :=
    carries_default (h.symm ▸ hsome)
  have hturns : ∀ turn ∈ [Turn.own first, .own second],
      Carries Libc.atFirstSecond defaultDateFormat (turn.formatter defaultFormatter).items turn.record.currentSecond :=
    List.forall_mem_cons.mpr ⟨hcarries first (by decide), List.forall_mem_singleton.mpr (hcarries second (by decide))⟩
  obtain ⟨st, outputs, hformat, hread⟩ :=
    default_lines_read_back_iff Libc.atFirstSecond (fun _ _ => none) _ () hturns (by decide)
  exact ⟨st, outputs, hformat, hread.mpr (by decide +kernel)⟩

/-! ## Delivery -/

/-- After every run of operations, the stream of each appender is what the history of the run delivers to it:
nothing is lost, doubled, out of order or rendered by another logger's formatter. No operation gets stuck. -/
theorem stream_eq_delivered (render : Formatter → LogRecordView → Bytes) (history : List LogSystem.Op)
    (sys : LogSystem) (h : Run (LogSystem.Step render) (· = LogSystem.initial) history sys) :
    (∀ appender, (sys.appenders appender).stream = History.stream render appender history) ∧
    ∀ op, LogSystem.Op.Callable sys op → ∃ sys', LogSystem.Step render sys op sys' := by
  have hagrees := agrees_of_run h
  refine ⟨hagrees.stream, fun op hcallable => ?_⟩
  cases op with
  | log logger context level message =>
      obtain ⟨sys', hlog, _⟩ := hagrees.log hcallable context level message
      exact ⟨sys', hcallable, hlog⟩
  | _ => exact ⟨_, hcallable, rfl⟩

/-- The root logger with its appender added a second time writes each record twice. -/
theorem stream_eq_delivered_twice :
    let history := [LogSystem.Op.log LogSystem.root ⟨0, 0, 1, 0, [], [], 1⟩ .info (ascii "hi"),
      .addAppender LogSystem.root LogSystem.stdout]
    History.stream (fun _ record => record.message) LogSystem.stdout history = ascii "hihi" := by
  intro history
  obtain ⟨sys, hstep, hstream⟩ : ∃ sys, LogSystem.Step (fun _ record => record.message)
      (LogSystem.initial.onLogger LogSystem.root (·.addAppender LogSystem.stdout))
      (.log LogSystem.root ⟨0, 0, 1, 0, [], [], 1⟩ .info (ascii "hi")) sys ∧
      (sys.appenders LogSystem.stdout).stream = ascii "hihi" :=
    ⟨_, ⟨Nat.one_pos, rfl⟩, by decide +kernel⟩
  have hrun : Run (LogSystem.Step fun _ record => record.message) (· = LogSystem.initial) history sys :=
    .extend (.extend (.start rfl) ⟨Nat.one_pos, rfl⟩) hstep
  exact ((stream_eq_delivered _ history sys hrun).1 LogSystem.stdout).symm.trans hstream

/-! ## Programs -/

section

open RoutingCall

theorem Agrees.effective_appenders {render : Formatter → LogRecordView → Bytes} {history : List LogSystem.Op}
    {sys : LogSystem} (h : Agrees render history sys) (logger : LoggerId) :
    (sys.loggers (History.effective history logger)).appenders = [] ↔
      (sys.loggers logger).appenders = [] ∧ (sys.loggers LogSystem.root).appenders = [] := by
  rw [h.effective]
  by_cases hown : (sys.loggers logger).appenders = []
  · rw [if_pos hown]
    exact ⟨fun hroot => ⟨hown, hroot⟩, And.right⟩
  · rw [if_neg hown]
    exact ⟨fun h => absurd h hown, And.left⟩

/-- Of the records logged through a logger at OFF, those of level OFF reach an appender if there is one. -/
theorem Agrees.logLevel_off {render : Formatter → LogRecordView → Bytes} {history : List LogSystem.Op}
    {sys : LogSystem} (h : Agrees render history sys) {logger : LoggerId} (hoff : (sys.loggers logger).level = .off)
    (record : LogRecordView) :
    ∃ calls, sys.loggers.logLevel (traceFormat render) traceAppend 2 logger record [] = some calls ∧
      (calls.filterMap RoutingCall.appender = [] ↔ record.level ≠ .off ∨
        (sys.loggers logger).appenders = [] ∧ (sys.loggers LogSystem.root).appenders = []) := by
  have hchain := h.rootChain (h.lt_of_off hoff)
  obtain ⟨htarget, hadmits⟩ := h.route logger record.level
  refine ⟨_, logLevel_trace hchain (rootChain_length logger) render record, ?_⟩
  rw [← h.effective_appenders, htarget]
  by_cases hrecord : record.level = .off
  · have hyes : sys.loggers.Admits (Pans.rootChain logger) record.level := by
      rw [hadmits, hrecord]
      exact fun hlow => hlow.elim (LogLevel.not_off_lt _) (LogLevel.not_off_lt _)
    by_cases hnone : (sys.loggers (History.effective history logger)).appenders = []
    · simp [hnone]
    · rw [if_neg hnone]
      simp only [if_pos hyes, deliveryCalls_appender, List.map_eq_nil_iff]
      simp [hnone, hrecord]
  · have hno : ¬sys.loggers.Admits (Pans.rootChain logger) record.level := by
      rw [hadmits, ← h.level, hoff, not_not]
      exact .inl (LogLevel.lt_off_iff.mpr hrecord)
    simp only [if_neg hno, hrecord, ne_eq, not_false_eq_true, true_or, iff_true]
    split <;> rfl

/-- Since the level of a logger or of an appender was set to OFF, it turns away the records of every other level and
none of level OFF. In a run in which no record of level OFF is logged, the records that are logged through the logger
could be left out, and the appender writes nothing. -/
theorem off_silences_iff (render : Formatter → LogRecordView → Bytes) (later earlier : List LogSystem.Op)
    (sys : LogSystem) :
    (∀ logger,
      Run (LogSystem.Step render) (· = LogSystem.initial) (later ++ .setLevel logger .off :: earlier) sys →
      History.KeepsOff (History.setsLevel logger) later →
      (∀ record, ∃ calls, sys.loggers.logLevel (traceFormat render) traceAppend 2 logger record [] = some calls ∧
        (calls.filterMap RoutingCall.appender = [] ↔ record.level ≠ .off ∨
          (sys.loggers logger).appenders = [] ∧ (sys.loggers LogSystem.root).appenders = [])) ∧
      ((∀ op ∈ later, History.logs op ≠ some (logger, .off)) →
        Run (LogSystem.Step render) (· = LogSystem.initial)
          (later.filter (fun op => (History.logs op).all (·.1 ≠ logger)) ++ .setLevel logger .off :: earlier) sys)) ∧
    ∀ appender,
      Run (LogSystem.Step render) (· = LogSystem.initial) (later ++ .setAppenderLevel appender .off :: earlier) sys →
      History.KeepsOff (History.setsAppenderLevel appender) later →
      (∀ level formattedRecord,
        ((sys.appenders appender).append level formattedRecord).stream = (sys.appenders appender).stream ↔
          level ≠ .off ∨ formattedRecord = []) ∧
      ((∀ op ∈ later, ∀ logger, History.logs op ≠ some (logger, .off)) →
        ∀ before, Run (LogSystem.Step render) (· = LogSystem.initial) earlier before →
          (sys.appenders appender).stream = (before.appenders appender).stream) := by
  refine ⟨fun logger h hkeeps => ?_, fun appender h hkeeps => ?_⟩
  · have hagrees := agrees_of_run h
    have hoff : (sys.loggers logger).level = .off := (hagrees.level logger).trans (hkeeps.level earlier)
    refine ⟨hagrees.logLevel_off hoff, fun hlogs => h.leave_out ?_⟩
    intro op since sys₁ sys₂ hsuffix hleft hbefore hstep
    have hoff₁ : (sys₁.loggers logger).level = .off := by
      rw [(agrees_of_run hbefore).level]
      exact (hkeeps.of_suffix ((List.suffix_cons op since).trans hsuffix)).level earlier
    cases op with
    | log logger' context level message =>
        obtain rfl : logger' = logger := by simpa [History.logs] using hleft
        have hlevel : level ≠ .off := fun hlevel =>
          hlogs _ (hsuffix.subset List.mem_cons_self) (by rw [History.logs, hlevel])
        have hsame : sys₁.log render logger' context level message = some sys₁ :=
          log_unchanged hoff₁ context hlevel message
        exact Option.some.inj (hstep.2.symm.trans hsame)
    | _ => cases hleft
  · have hagrees := agrees_of_run h
    have hoff : (sys.appenders appender).level = .off :=
      (hagrees.appenderLevel appender).trans (hkeeps.appenderLevel earlier)
    constructor
    · intro level formattedRecord
      rw [Appender.Impl.append_stream, hoff]
      by_cases hlevel : level = .off
      · simp [hlevel]
      · simp [hlevel, LogLevel.lt_off_iff.mpr hlevel]
    · intro hlogs before hbefore
      rw [hagrees.stream, (agrees_of_run hbefore).stream, hkeeps.stream render earlier hlogs]

def LogSystem.rootOff : LogSystem := LogSystem.initial.onLogger LogSystem.root (·.setLevel .off)

def LogSystem.stdoutOff : LogSystem := LogSystem.initial.onAppender LogSystem.stdout (·.setLevel .off)

theorem off_silences_iff_fatal :
    ∃ calls, LogSystem.rootOff.loggers.logLevel (traceFormat fun _ record => record.message) traceAppend 2
        LogSystem.root { LogRecordView.atFirstSecond with level := .fatal } [] = some calls ∧
      calls.filterMap RoutingCall.appender = [] := by
  have hrun : Run (LogSystem.Step fun _ record => record.message) (· = LogSystem.initial)
      ([.log LogSystem.root ⟨0, 0, 1, 0, [], [], 1⟩ .fatal (ascii "hi")] ++ .setLevel LogSystem.root .off :: [])
      LogSystem.rootOff := .extend (.extend (.start rfl) ⟨Nat.one_pos, rfl⟩) ⟨Nat.one_pos, rfl⟩
  have hkeeps : History.KeepsOff (History.setsLevel LogSystem.root)
      [.log LogSystem.root ⟨0, 0, 1, 0, [], [], 1⟩ .fatal (ascii "hi")] := by
    simp [History.KeepsOff, History.setsLevel]
  obtain ⟨calls, hcalls, hnone⟩ := ((off_silences_iff _ _ _ _).1 LogSystem.root hrun hkeeps).1
    { LogRecordView.atFirstSecond with level := .fatal }
  exact ⟨calls, hcalls, hnone.mpr (.inl (by decide))⟩

/-- A text that names no level is read as OFF, and a record of that level passes a logger and an appender at OFF. -/
theorem off_lets_off_through :
    LogLevel.fromString (ascii "trace") = some .off ∧
    (¬∀ render later earlier sys logger,
      Run (LogSystem.Step render) (· = LogSystem.initial) (later ++ .setLevel logger .off :: earlier) sys →
      History.KeepsOff (History.setsLevel logger) later →
      ∀ record, ∃ calls, sys.loggers.logLevel (traceFormat render) traceAppend 2 logger record [] = some calls ∧
        calls.filterMap RoutingCall.appender = []) ∧
    ¬∀ render later earlier sys appender,
      Run (LogSystem.Step render) (· = LogSystem.initial) (later ++ .setAppenderLevel appender .off :: earlier) sys →
      History.KeepsOff (History.setsAppenderLevel appender) later →
      ∀ level formattedRecord,
        ((sys.appenders appender).append level formattedRecord).stream = (sys.appenders appender).stream := by
  refine ⟨by decide +kernel, fun h => ?_, fun h => ?_⟩
  · have hrun : Run (LogSystem.Step fun _ record => record.message) (· = LogSystem.initial)
        ([] ++ .setLevel LogSystem.root .off :: []) LogSystem.rootOff := .extend (.start rfl) ⟨Nat.one_pos, rfl⟩
    obtain ⟨calls, hcalls, hnone⟩ := h _ _ _ _ _ hrun (by simp [History.KeepsOff])
      { LogRecordView.atFirstSecond with level := .off }
    cases hcalls
    cases hnone
  · have hrun : Run (LogSystem.Step fun _ record => record.message) (· = LogSystem.initial)
        ([] ++ .setAppenderLevel LogSystem.stdout .off :: []) LogSystem.stdoutOff := .extend (.start rfl) ⟨trivial, rfl⟩
    have hsame := h _ _ _ _ _ hrun (by simp [History.KeepsOff]) .off (ascii "hi")
    have hwritten : ((LogSystem.stdoutOff.appenders LogSystem.stdout).append .off (ascii "hi")).stream =
        ascii "hi" := by decide +kernel
    cases hwritten.symm.trans hsame

end

/-! ## Refused calls -/

section

open Process (Call)

/-- After every run of calls, refused ones among them, a call that is refused changes nothing but what the sinks have
been given. The pattern of each logger is the last one that it accepted, no pointer is null, and no call follows one. -/
theorem refused_calls_change_nothing (render : Formatter → LogRecordView → Bytes)
    (surroundings : Nat → LogContext × Bytes) (calls : List Call) (s : Process)
    (h : Run (Process.Step render surroundings) (· = Process.initial) calls s) :
    ((∀ logger pattern, Formatter.new pattern = none →
        (s.setFormatter render surroundings logger pattern).Throws s.SameConfiguration) ∧
      (∀ logger, (s.implSetFormatter render surroundings logger none).Yields () s.SameConfiguration) ∧
      (∀ logger, (s.addAppender render surroundings logger none).Yields () s.SameConfiguration) ∧
      (s.getLogger render surroundings []).Yields none s.SameConfiguration) ∧
    (∀ logger,
      (s.loggers logger).getFormatterPattern = (calls.findSome? (Call.accepts logger)).getD defaultLogPattern ∧
      (s.loggers logger).formatter ≠ none ∧ none ∉ (s.loggers logger).appenders) ∧
    (∀ logger, logger < s.next → (s.flush logger).Yields () (· = s) ∧ (s.sync logger).Yields () (· = s)) ∧
    ∀ call, call.Callable s → ∃ s', Process.Step render surroundings s call s' := by
  have hfollows := Process.follows_of_run h
  refine ⟨⟨?_, ?_, ?_, ?_⟩, ?_, ?_, ?_⟩
  · intro logger pattern hrejected
    exact (hfollows.setFormatter_rejected logger hrejected).imp fun _ hs' => hs'.2
  · exact fun logger => (hfollows.implSetFormatter_null logger).imp fun _ hs' => hs'.2
  · exact fun logger => (hfollows.addAppender_null logger).imp fun _ hs' => hs'.2
  · exact hfollows.getLogger_empty.imp fun _ hs' => hs'.2
  · exact fun logger => ⟨hfollows.getFormatterPattern logger, hfollows.no_null logger⟩
  · exact fun logger hlogger => ⟨hfollows.flush hlogger, hfollows.sync hlogger⟩
  · intro call hcall
    obtain ⟨s', hafter, _⟩ := hfollows.perform hcall
    exact ⟨s', hcall, hafter⟩

/-- The last pattern is rejected at its brace, after an item has been built. -/
theorem refused_calls_change_nothing_brace :
    ∃ s, Run (Process.Step (fun _ record => record.message) fun _ => (⟨0, 0, 1, 0, [], [], 1⟩, [])) (· = Process.initial)
        [.setFormatter LogSystem.root (ascii "%p%d\x7b"), .addAppender LogSystem.root none,
          .setFormatter LogSystem.root (ascii "%m%n")] s ∧
      (s.loggers LogSystem.root).getFormatterPattern = ascii "%m%n" := by
  have hnext : ∀ {calls s} (call : Call), call.logger = some LogSystem.root →
      Run (Process.Step (fun _ record => record.message) fun _ => (⟨0, 0, 1, 0, [], [], 1⟩, [])) (· = Process.initial)
        calls s →
      ∃ s', Run (Process.Step (fun _ record => record.message) fun _ => (⟨0, 0, 1, 0, [], [], 1⟩, []))
        (· = Process.initial) (call :: calls) s' := by
    intro calls s call hlogger h
    have hcall : call.Callable s := by
      intro logger hsome
      cases hlogger.symm.trans hsome
      exact (Process.follows_of_run h).root_lt
    obtain ⟨s', hstep⟩ := (refused_calls_change_nothing _ _ calls s h).2.2.2 call hcall
    exact ⟨s', .extend h hstep⟩
  obtain ⟨s₁, h₁⟩ := hnext (.setFormatter LogSystem.root (ascii "%m%n")) rfl (.start rfl)
  obtain ⟨s₂, h₂⟩ := hnext (.addAppender LogSystem.root none) rfl h₁
  obtain ⟨s₃, h₃⟩ := hnext (.setFormatter LogSystem.root (ascii "%p%d\x7b")) rfl h₂
  have hpattern := ((refused_calls_change_nothing _ _ _ s₃ h₃).2.1 LogSystem.root).1
  exact ⟨s₃, h₃, hpattern.trans (by decide +kernel)⟩

end

end Pans
