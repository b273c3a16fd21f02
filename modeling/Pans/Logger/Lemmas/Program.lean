import Pans.Logger.Lemmas.History
import Pans.Logger.Lemmas.Statement
import Pans.Logger.Program

/-!
# What a program performs

The state that a program leaves is that of the history of the operations it means. The induction is on the program.
-/

namespace Pans

open LogSystem

variable {render : Formatter → LogRecordView → Bytes} {history : List Op} {sys sys' : LogSystem}

/-! ## Steps of a program -/

theorem next_le_of_step {op : Op} (h : LogSystem.Step render sys op sys') : sys.next ≤ sys'.next := by
  obtain ⟨_, hperform⟩ := h
  cases op with
  | getLogger name =>
      cases hperform
      rw [LogSystem.getLogger]
      split
      · exact Nat.le_refl _
      · split
        · exact Nat.le_refl _
        · exact Nat.le_succ _
  | log logger context level message =>
      obtain ⟨impls, _, rfl⟩ := Option.map_eq_some_iff.mp hperform
      exact Nat.le_refl _
  | _ =>
      cases hperform
      exact Nat.le_refl _

open Classical in
/-- What `shouldLog` finds is what the history says. -/
theorem Agrees.shouldLog (h : Agrees render history sys) {logger : LoggerId} (hlogger : logger < sys.next)
    (level : LogLevel) : sys.loggers.shouldLog 2 logger level = some (decide (History.Shows history logger level)) := by
  obtain ⟨htarget, hadmits⟩ := h.route logger level
  rw [Loggers.shouldLog_eq (h.rootChain hlogger) (rootChain_length logger)]
  congr 1
  rw [decide_eq_decide, hadmits, htarget, History.Shows]
  refine and_congr_right fun _ => ?_
  by_cases hnone : (sys.loggers (History.effective history logger)).appenders = []
  · simpa [hnone] using (h.appenders_eq_nil _).mp hnone
  · simpa [hnone] using mt (h.appenders_eq_nil _).mpr hnone

/-- The record of a line is submitted as the operation `log` does it. -/
theorem submitAll_log (h : Run (LogSystem.Step render) (· = LogSystem.initial) history sys) {logger : LoggerId}
    (hlogger : logger < sys.next) (context : LogContext) (level : LogLevel) (message : Bytes) :
    ∃ sys', sys.submitAll render [(logger, context.getRecord level (sys.loggers logger).name message)] = .done sys' () ∧
      Run (LogSystem.Step render) (· = LogSystem.initial) (.log logger context level message :: history) sys' ∧
      sys.next ≤ sys'.next := by
  obtain ⟨sys', hlog, _⟩ := (agrees_of_run h).log hlogger context level message
  have hstep : LogSystem.Step render sys (.log logger context level message) sys' := ⟨hlogger, hlog⟩
  refine ⟨sys', ?_, .extend h hstep, next_le_of_step hstep⟩
  have hsubmit : sys.submitRecord render logger (context.getRecord level (sys.loggers logger).name message) = some sys' :=
    hlog
  rw [submitAll, hsubmit]
  rfl

/-! ## Programs -/

/-- A run goes on to a history, and no logger goes away. -/
def Leads (render : Formatter → LogRecordView → Bytes) (sys : LogSystem) (history : List Op) (sys' : LogSystem) : Prop :=
  Run (LogSystem.Step render) (· = LogSystem.initial) history sys' ∧ sys.next ≤ sys'.next

theorem Leads.trans {sys'' : LogSystem} (h' : Leads render sys' history sys'') (h : sys.next ≤ sys'.next) :
    Leads render sys history sys'' :=
  ⟨h'.1, Nat.le_trans h h'.2⟩

variable {logger : LoggerId} {level : LogLevel} {context : LogContext} {line : LogLine}
  {message : Bytes} {taken : List (Insertion × AppendAllocations)}

/-- The destructor of a line in a run. -/
theorem destroy_leads (h : Run (LogSystem.Step render) (· = LogSystem.initial) history sys) (hlogger : logger < sys.next)
    (hline : line.Holds logger level context taken) :
    ∃ sys', destroyLine render (sys, line) = .done sys' () ∧
      Leads render sys (.log logger context level (Insertion.content taken) :: history) sys' := by
  obtain ⟨sys', hsubmit, hrun, hnext⟩ := submitAll_log h hlogger context level (Insertion.content taken)
  refine ⟨sys', ?_, hrun, hnext⟩
  rw [destroyLine, hline.destroy]
  simp only [Outcome.leaving, List.nil_append, hsubmit, Outcome.bind]

theorem Leads.refl (h : Run (LogSystem.Step render) (· = LogSystem.initial) history sys) : Leads render sys history sys :=
  ⟨h, Nat.le_refl _⟩

open Classical in
/-- A statement evaluates its operands if its level is shown. -/
theorem run_statement (h : Run (LogSystem.Step render) (· = LogSystem.initial) history sys) (hlogger : logger < sys.next)
    (operands : Operands) :
    (Command.statement (some logger) level context operands).run render sys =
      if History.Shows history logger level then
        (operands.run render (sys, .new logger level context)).leaving (destroyLine render)
      else .done sys () := by
  rw [Command.run, if_pos hlogger, (agrees_of_run h).shouldLog hlogger]
  by_cases hshows : History.Shows history logger level
  · rw [decide_eq_true hshows, if_pos hshows]
  · rw [decide_eq_false hshows, if_neg hshows]

open Classical in
theorem run_format (h : Run (LogSystem.Step render) (· = LogSystem.initial) history sys) (hlogger : logger < sys.next)
    (arguments : Block) (call : PrintfCall) :
    (Command.format (some logger) level context arguments call).run render sys =
      if History.Shows history logger level then
        (arguments.run render sys).bind fun sys _ => sys.formatRecord render logger level context call
      else .done sys () := by
  rw [Command.run, if_pos hlogger, (agrees_of_run h).shouldLog hlogger]
  by_cases hshows : History.Shows history logger level
  · rw [decide_eq_true hshows, if_pos hshows]
  · rw [decide_eq_false hshows, if_neg hshows]

/-- `LogPrintf` behind the arguments. -/
theorem formatRecord_leads (h : Run (LogSystem.Step render) (· = LogSystem.initial) history sys)
    (hlogger : logger < sys.next) (call : PrintfCall) :
    ∃ message sys' thrown, sys.formatRecord render logger level context call = .ended sys' thrown ∧
      call.Writes message thrown ∧ Leads render sys (.log logger context level message :: history) sys' := by
  have hline : LogLine.LeavesWith sys.loggers logger level context call.storage _ _ :=
    formatLine_leavesWith call.vsnprintf call.inlineBuffer call.format
  obtain ⟨message, hmessage, hprintf⟩ := hline.leaving []
  obtain ⟨sys', hsubmit, hleads⟩ := submitAll_log h hlogger context level message
  rw [List.nil_append] at hprintf
  rcases hprintf with hdone | ⟨hthrew, hrefused⟩
  · refine ⟨message, sys', false, ?_, ⟨hmessage, nofun⟩, hleads⟩
    rw [formatRecord, logPrintf, hdone]
    exact Outcome.leaving_ended false hsubmit
  · refine ⟨message, sys', true, ?_, ⟨hmessage, fun _ => hrefused⟩, hleads⟩
    rw [formatRecord, logPrintf, hthrew]
    exact Outcome.leaving_ended true hsubmit

mutual
theorem Command.run_means : (command : Command) → ∀ {history : List Op} {sys sys' : LogSystem} {thrown : Bool},
    Run (LogSystem.Step render) (· = LogSystem.initial) history sys → command.run render sys = .ended sys' thrown →
    ∃ history', command.Means history history' thrown ∧ Leads render sys history' sys'
  | .op op, history, sys, sys', thrown, h, hout => by
      rw [Command.run] at hout
      split at hout
      · rename_i hcallable
        cases hperform : sys.perform render op with
        | none =>
            rw [hperform] at hout
            exact absurd hout.symm Outcome.ended_ne_undefined
        | some sys₁ =>
            rw [hperform] at hout
            obtain ⟨rfl, rfl⟩ := Outcome.done_eq_ended.mp hout
            have hstep : LogSystem.Step render sys op sys₁ := ⟨hcallable, hperform⟩
            exact ⟨_, .op, .extend h hstep, next_le_of_step hstep⟩
      · exact absurd hout.symm Outcome.ended_ne_undefined
  | .throw, history, sys, sys', thrown, h, hout => by
      obtain ⟨rfl, rfl⟩ := Outcome.threw_eq_ended.mp hout
      exact ⟨_, .throw, .refl h⟩
  | .attempt body, history, sys, sys', thrown, h, hout => by
      rw [Command.run, Outcome.tryCatch_eq_ended] at hout
      obtain ⟨⟨thrown', hbody⟩, rfl⟩ := hout
      obtain ⟨history', hmeans, hleads⟩ := body.run_means h hbody
      exact ⟨history', .attempt hmeans, hleads⟩
  | .statement none level context operands, history, sys, sys', thrown, h, hout => by
      obtain ⟨rfl, rfl⟩ := Outcome.done_eq_ended.mp hout
      exact ⟨_, .null, .refl h⟩
  | .statement (some logger) level context operands, history, sys, sys', thrown, h, hout => by
      have hlogger : logger < sys.next := by
        by_contra hno
        rw [Command.run, if_neg hno] at hout
        exact Outcome.ended_ne_undefined hout.symm
      rw [run_statement h hlogger] at hout
      split at hout
      · rename_i hshows
        rcases (operands.run render (sys, .new logger level context)).undefined_or_ended with
          hundefined | ⟨⟨sys₁, line⟩, thrown₁, hoperands⟩
        · rw [hundefined] at hout
          exact absurd hout.symm Outcome.ended_ne_undefined
        · obtain ⟨history', taken, hmeans, ⟨hrun, hnext⟩, hline⟩ :=
            operands.run_means h LogLine.new_holds hoperands
          obtain ⟨sys₂, hdestroy, hleads⟩ := destroy_leads hrun (Nat.lt_of_lt_of_le hlogger hnext) hline
          rw [hoperands, Outcome.leaving_ended thrown₁ hdestroy] at hout
          obtain ⟨rfl, rfl⟩ := Outcome.ended_inj.mp hout
          exact ⟨_, .shown hshows hmeans, hleads.trans hnext⟩
      · rename_i hhidden
        obtain ⟨rfl, rfl⟩ := Outcome.done_eq_ended.mp hout
        exact ⟨_, .hidden hhidden, .refl h⟩
  | .format none level context arguments call, history, sys, sys', thrown, h, hout => by
      obtain ⟨rfl, rfl⟩ := Outcome.done_eq_ended.mp hout
      exact ⟨_, .nullFormat, .refl h⟩
  | .format (some logger) level context arguments call, history, sys, sys', thrown, h, hout => by
      have hlogger : logger < sys.next := by
        by_contra hno
        rw [Command.run, if_neg hno] at hout
        exact Outcome.ended_ne_undefined hout.symm
      rw [run_format h hlogger] at hout
      split at hout
      · rename_i hshows
        rcases Outcome.bind_eq_ended.mp hout with ⟨sys₁, harguments, hprintf⟩ | ⟨harguments, rfl⟩
        · obtain ⟨history', hmeans, hrun, hnext⟩ := arguments.run_means h harguments
          obtain ⟨message, sys₂, thrown₂, hended, hwrites, hleads⟩ :=
            formatRecord_leads hrun (Nat.lt_of_lt_of_le hlogger hnext) call
          obtain ⟨rfl, rfl⟩ := Outcome.ended_inj.mp (hended.symm.trans hprintf)
          exact ⟨_, .shownFormat hshows hmeans hwrites, hleads.trans hnext⟩
        · obtain ⟨history', hmeans, hleads⟩ := arguments.run_means h harguments
          exact ⟨history', .argumentsThrow hshows hmeans, hleads⟩
      · rename_i hhidden
        obtain ⟨rfl, rfl⟩ := Outcome.done_eq_ended.mp hout
        exact ⟨_, .hiddenFormat hhidden, .refl h⟩

theorem Block.run_means : (block : Block) → ∀ {history : List Op} {sys sys' : LogSystem} {thrown : Bool},
    Run (LogSystem.Step render) (· = LogSystem.initial) history sys → block.run render sys = .ended sys' thrown →
    ∃ history', block.Means history history' thrown ∧ Leads render sys history' sys'
  | .nil, history, sys, sys', thrown, h, hout => by
      obtain ⟨rfl, rfl⟩ := Outcome.done_eq_ended.mp hout
      exact ⟨_, .nil, .refl h⟩
  | .cons command rest, history, sys, sys', thrown, h, hout => by
      rcases Outcome.bind_eq_ended.mp hout with ⟨sys₁, hcommand, hrest⟩ | ⟨hcommand, rfl⟩
      · obtain ⟨history₁, hmeans, hrun, hnext⟩ := command.run_means h hcommand
        obtain ⟨history', hmeans', hleads⟩ := rest.run_means hrun hrest
        exact ⟨history', .cons hmeans hmeans', hleads.trans hnext⟩
      · obtain ⟨history', hmeans, hleads⟩ := command.run_means h hcommand
        exact ⟨history', .threw hmeans, hleads⟩

theorem Operands.run_means : (operands : Operands) → ∀ {history : List Op} {sys sys' : LogSystem} {thrown : Bool}
    {logger : LoggerId} {level : LogLevel} {context : LogContext} {line line' : LogLine}
    {taken : List (Insertion × AppendAllocations)},
    Run (LogSystem.Step render) (· = LogSystem.initial) history sys → line.Holds logger level context taken →
    operands.run render (sys, line) = .ended (sys', line') thrown →
    ∃ history' taken', operands.Means taken line.badbit history (Insertion.content taken') history' thrown ∧
      Leads render sys history' sys' ∧ line'.Holds logger level context taken'
  | .nil, history, sys, sys', thrown, _, _, _, line, line', taken, h, hline, hout => by
      obtain ⟨heq, rfl⟩ := Outcome.done_eq_ended.mp hout
      cases heq
      exact ⟨_, _, .nil, .refl h, hline⟩
  | .cons body insertion allocations rest, history, sys, sys', thrown, _, _, _, line, line', taken, h, hline, hout => by
      rcases Outcome.bind_eq_ended.mp hout with ⟨_, hbody, hinsert⟩ | ⟨hbody, rfl⟩
      · obtain ⟨sys₁, hrunBody, rfl⟩ := Outcome.within_eq_ended.mp hbody
        obtain ⟨history₁, hmeans, hrun, hnext⟩ := body.run_means h hrunBody
        by_cases hthrows : insertion = .throws
        · subst hthrows
          obtain ⟨heq, rfl⟩ := Outcome.threw_eq_ended.mp hinsert
          cases heq
          exact ⟨_, _, .throws hmeans, ⟨hrun, hnext⟩, hline⟩
        · cases hbad : line.badbit with
          | false =>
              obtain ⟨line₁, hdone, ⟨hgood, hpasses, hline₁⟩ | ⟨hbad₁, hfails, hline₁⟩⟩ :=
                hline.perform_takes hbad hthrows allocations
              · simp only [hdone, Outcome.within, Outcome.bind] at hinsert
                obtain ⟨history', taken', hrest, hleads, hline'⟩ := rest.run_means hrun hline₁ hinsert
                rw [hgood] at hrest
                exact ⟨history', taken', .taken hmeans hpasses hrest, hleads.trans hnext, hline'⟩
              · simp only [hdone, Outcome.within, Outcome.bind] at hinsert
                obtain ⟨history', taken', hrest, hleads, hline'⟩ := rest.run_means hrun hline₁ hinsert
                rw [hbad₁] at hrest
                exact ⟨history', taken', .refused hmeans hthrows hfails hrest, hleads.trans hnext, hline'⟩
          | true =>
              simp only [LogLine.perform_bad hbad hthrows, Outcome.within, Outcome.bind] at hinsert
              obtain ⟨history', taken', hrest, hleads, hline'⟩ := rest.run_means hrun hline hinsert
              rw [hbad] at hrest
              exact ⟨history', taken', .ignored hmeans hthrows hrest, hleads.trans hnext, hline'⟩
      · obtain ⟨sys₁, hrunBody, heq⟩ := Outcome.within_eq_ended.mp hbody
        cases heq
        obtain ⟨history', hmeans, hleads⟩ := body.run_means h hrunBody
        exact ⟨history', taken, .bodyThrows hmeans, hleads, hline⟩
end

/-! ## Statements by themselves -/

theorem Operands.run_plain (sys : LogSystem) (line : LogLine) (insertions : List (Insertion × AppendAllocations)) :
    (Operands.plain insertions).run render (sys, line) = (line.performAll insertions).within fun line => (sys, line) := by
  induction insertions generalizing line with
  | nil => rfl
  | cons first insertions ih =>
      obtain ⟨insertion, allocations⟩ := first
      simp only [Operands.plain, Operands.run, Block.run, LogLine.performAll, Outcome.within, Outcome.bind]
      cases line.perform allocations insertion with
      | done line' _ => exact ih line'
      | threw line' => rfl
      | undefined => rfl

/-- A statement whose operands call nothing submits what `logStatement` does. -/
theorem Command.run_plain {sys : LogSystem} {logger : Option LoggerId} (hlogger : ∀ l, logger = some l → l < sys.next)
    (level : LogLevel) (context : LogContext) (insertions : List (Insertion × AppendAllocations)) :
    (Command.statement logger level context (.plain insertions)).run render sys =
      match logStatement sys.loggers 2 logger level context insertions [] with
      | none => .undefined
      | some submitted => submitted.leaving fun submitted => sys.submitAll render submitted := by
  cases logger with
  | none => rfl
  | some logger =>
      rw [Command.run, if_pos (hlogger logger rfl), logStatement]
      cases sys.loggers.shouldLog 2 logger level with
      | none => rfl
      | some shouldLog =>
          cases shouldLog with
          | false => rfl
          | true =>
              simp only [Operands.run_plain, Option.map_some, if_true, Outcome.within_leaving, Outcome.leaving_leaving,
                destroyLine]

/-! ## Programs that are defined -/

theorem callable_mono (hnext : sys.next ≤ sys'.next) {op : Op} (h : op.Callable sys) : op.Callable sys' := by
  cases op with
  | getLogger name => exact h
  | setAppenderLevel appender level => exact h
  | _ => exact Nat.lt_of_lt_of_le h hnext

mutual
theorem Command.Callable.mono (hnext : sys.next ≤ sys'.next) :
    (command : Command) → command.Callable sys → command.Callable sys'
  | .op _, h => callable_mono hnext h
  | .throw, _ => trivial
  | .attempt body, h => Block.Callable.mono hnext body h
  | .statement _ _ _ operands, h =>
      ⟨fun l hl => Nat.lt_of_lt_of_le (h.1 l hl) hnext, Operands.Callable.mono hnext operands h.2⟩
  | .format _ _ _ arguments _, h =>
      ⟨fun l hl => Nat.lt_of_lt_of_le (h.1 l hl) hnext, Block.Callable.mono hnext arguments h.2⟩

theorem Block.Callable.mono (hnext : sys.next ≤ sys'.next) :
    (block : Block) → block.Callable sys → block.Callable sys'
  | .nil, _ => trivial
  | .cons command rest, h => ⟨Command.Callable.mono hnext command h.1, Block.Callable.mono hnext rest h.2⟩

theorem Operands.Callable.mono (hnext : sys.next ≤ sys'.next) :
    (operands : Operands) → operands.Callable sys → operands.Callable sys'
  | .nil, _ => trivial
  | .cons body _ _ rest, h => ⟨Block.Callable.mono hnext body h.1, Operands.Callable.mono hnext rest h.2⟩
end

theorem perform_defined (h : Run (LogSystem.Step render) (· = LogSystem.initial) history sys) {op : Op}
    (hcallable : op.Callable sys) : ∃ sys', sys.perform render op = some sys' := by
  cases op with
  | log logger context level message =>
      obtain ⟨sys', hlog, _⟩ := (agrees_of_run h).log hcallable context level message
      exact ⟨sys', hlog⟩
  | _ => exact ⟨_, rfl⟩

mutual
theorem Command.run_defined : (command : Command) → ∀ {history : List Op} {sys : LogSystem},
    Run (LogSystem.Step render) (· = LogSystem.initial) history sys → command.Callable sys →
    ∃ sys' thrown, command.run render sys = .ended sys' thrown
  | .op op, history, sys, h, hcallable => by
      have hop : op.Callable sys := hcallable
      obtain ⟨sys', hperform⟩ := perform_defined h hop
      refine ⟨sys', false, ?_⟩
      rw [Command.run, if_pos hop, hperform]
      rfl
  | .throw, history, sys, h, _ => ⟨sys, true, rfl⟩
  | .attempt body, history, sys, h, hcallable => by
      obtain ⟨sys', thrown, hbody⟩ := body.run_defined h hcallable
      exact ⟨sys', false, Outcome.tryCatch_eq_ended.mpr ⟨⟨thrown, hbody⟩, rfl⟩⟩
  | .statement none level context operands, history, sys, h, _ => ⟨sys, false, rfl⟩
  | .statement (some logger) level context operands, history, sys, h, hcallable => by
      have hlogger := hcallable.1 logger rfl
      rw [run_statement h hlogger]
      split
      · obtain ⟨⟨sys₁, line⟩, thrown, hoperands⟩ := operands.run_defined h LogLine.new_holds hcallable.2
        obtain ⟨_, _, _, ⟨hrun, hnext⟩, hline⟩ := operands.run_means h LogLine.new_holds hoperands
        obtain ⟨sys', hdestroy, _⟩ := destroy_leads hrun (Nat.lt_of_lt_of_le hlogger hnext) hline
        refine ⟨sys', thrown, ?_⟩
        rw [hoperands, Outcome.leaving_ended thrown hdestroy]
      · exact ⟨sys, false, rfl⟩
  | .format none level context arguments call, history, sys, h, _ => ⟨sys, false, rfl⟩
  | .format (some logger) level context arguments call, history, sys, h, hcallable => by
      have hlogger := hcallable.1 logger rfl
      rw [run_format h hlogger]
      split
      · obtain ⟨sys₁, thrown₁, harguments⟩ := arguments.run_defined h hcallable.2
        cases thrown₁ with
        | true => exact ⟨sys₁, true, Outcome.bind_eq_ended.mpr (.inr ⟨harguments, rfl⟩)⟩
        | false =>
            obtain ⟨_, _, hrun, hnext⟩ := arguments.run_means h harguments
            obtain ⟨_, sys', thrown, hended, _⟩ := formatRecord_leads hrun (Nat.lt_of_lt_of_le hlogger hnext) call
            exact ⟨sys', thrown, Outcome.bind_eq_ended.mpr (.inl ⟨sys₁, harguments, hended⟩)⟩
      · exact ⟨sys, false, rfl⟩

theorem Block.run_defined : (block : Block) → ∀ {history : List Op} {sys : LogSystem},
    Run (LogSystem.Step render) (· = LogSystem.initial) history sys → block.Callable sys →
    ∃ sys' thrown, block.run render sys = .ended sys' thrown
  | .nil, history, sys, h, _ => ⟨sys, false, rfl⟩
  | .cons command rest, history, sys, h, hcallable => by
      obtain ⟨sys₁, thrown, hcommand⟩ := command.run_defined h hcallable.1
      cases thrown with
      | true => exact ⟨sys₁, true, Outcome.bind_eq_ended.mpr (.inr ⟨hcommand, rfl⟩)⟩
      | false =>
          obtain ⟨history₁, _, hrun, hnext⟩ := command.run_means h hcommand
          obtain ⟨sys', thrown, hrest⟩ := rest.run_defined hrun (Block.Callable.mono hnext rest hcallable.2)
          exact ⟨sys', thrown, Outcome.bind_eq_ended.mpr (.inl ⟨sys₁, hcommand, hrest⟩)⟩

theorem Operands.run_defined : (operands : Operands) → ∀ {history : List Op} {sys : LogSystem} {logger : LoggerId}
    {level : LogLevel} {context : LogContext} {line : LogLine} {taken : List (Insertion × AppendAllocations)},
    Run (LogSystem.Step render) (· = LogSystem.initial) history sys → line.Holds logger level context taken →
    operands.Callable sys → ∃ s thrown, operands.run render (sys, line) = .ended s thrown
  | .nil, history, sys, _, _, _, line, taken, h, hline, _ => ⟨(sys, line), false, rfl⟩
  | .cons body insertion allocations rest, history, sys, _, _, _, line, taken, h, hline, hcallable => by
      obtain ⟨sys₁, thrown₁, hbody⟩ := body.run_defined h hcallable.1
      cases thrown₁ with
      | true =>
          refine ⟨(sys₁, line), true, Outcome.bind_eq_ended.mpr (.inr ⟨?_, rfl⟩)⟩
          exact Outcome.within_eq_ended.mpr ⟨sys₁, hbody, rfl⟩
      | false =>
          obtain ⟨_, _, hrun, hnext⟩ := body.run_means h hbody
          have hrest := Operands.Callable.mono hnext rest hcallable.2
          have hevaluated : ((body.run render sys).within fun sys => (sys, line)) = .ended (sys₁, line) false :=
            Outcome.within_eq_ended.mpr ⟨sys₁, hbody, rfl⟩
          by_cases hthrows : insertion = .throws
          · subst hthrows
            exact ⟨(sys₁, line), true, Outcome.bind_eq_ended.mpr (.inl ⟨_, hevaluated, rfl⟩)⟩
          · obtain ⟨line₁, taken₁, hinsert, hline₁⟩ := hline.inserted hthrows allocations
            obtain ⟨s, thrown, hrun₁⟩ := rest.run_defined hrun hline₁ hrest
            refine ⟨s, thrown, Outcome.bind_eq_ended.mpr (.inl ⟨_, hevaluated, ?_⟩)⟩
            simp only [hinsert, Outcome.within, Outcome.bind, hrun₁]
end

end Pans
