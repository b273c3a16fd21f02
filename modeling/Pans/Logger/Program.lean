import Pans.Logger.History
import Pans.Logger.Lemmas.LogLine
import Pans.Logger.Statement

/-!
# Programs that log

Code that configures loggers and logs through the macros. The operands of a statement are evaluated between the
construction of its line and its destruction; they may log, configure the loggers or throw. A logger that is not shown
the level has none of its operands evaluated.
-/

namespace Pans

/-- What `LogPrintf` finds when it is called. A null format is `none`. -/
structure PrintfCall where
  vsnprintf : Vsnprintf
  inlineBuffer : CharArray printfFormatInlineCapacity
  storage : PrintfStorage
  format : Option Bytes

/-- The message of the call, and whether it throws. Only storage that is refused makes it lose the text. -/
def PrintfCall.Writes (call : PrintfCall) (message : Bytes) (thrown : Bool) : Prop :=
  (message = printfMessage call.vsnprintf call.inlineBuffer call.format ∨ message = [] ∧ ¬call.storage.Granted) ∧
    (thrown = true → ¬call.storage.Granted)

mutual
/-- `statement` is `PANS_LOG_LEVEL` with its operands, `format` is `PANS_LOG_FMT_LEVEL`, and `attempt` catches what its
body throws. -/
inductive Command where
  | op (op : LogSystem.Op)
  | throw
  | attempt (body : Block)
  | statement (logger : Option LoggerId) (level : LogLevel) (context : LogContext) (operands : Operands)
  | format (logger : Option LoggerId) (level : LogLevel) (context : LogContext) (arguments : Block) (call : PrintfCall)

inductive Block where
  | nil
  | cons (command : Command) (rest : Block)

/-- What is run to evaluate each operand, and what is then inserted. -/
inductive Operands where
  | nil
  | cons (body : Block) (insertion : Insertion) (allocations : AppendAllocations) (rest : Operands)
end

instance (sys : LogSystem) : (op : LogSystem.Op) → Decidable (op.Callable sys)
  | .getLogger name => inferInstanceAs (Decidable (name ≠ []))
  | .setLevel logger _ => inferInstanceAs (Decidable (logger < sys.next))
  | .setFormatter logger _ => inferInstanceAs (Decidable (logger < sys.next))
  | .addAppender logger _ => inferInstanceAs (Decidable (logger < sys.next))
  | .removeAppender logger _ => inferInstanceAs (Decidable (logger < sys.next))
  | .clearAppenders logger => inferInstanceAs (Decidable (logger < sys.next))
  | .setAppenderLevel _ _ => inferInstanceAs (Decidable True)
  | .log logger _ _ _ => inferInstanceAs (Decidable (logger < sys.next))

/-- Operands that are evaluated without a call. -/
def Operands.plain : List (Insertion × AppendAllocations) → Operands
  | [] => .nil
  | (insertion, allocations) :: insertions => .cons .nil insertion allocations (plain insertions)

section

variable (render : Formatter → LogRecordView → Bytes)

/-! ## Running -/

namespace LogSystem

def submitAll (sys : LogSystem) : Submitted → Outcome LogSystem Unit
  | [] => .done sys ()
  | (logger, record) :: submitted =>
      match sys.submitRecord render logger record with
      | none => .undefined
      | some sys => sys.submitAll submitted

def destroyLine (s : LogSystem × LogLine) : Outcome LogSystem Unit :=
  (s.2.destroy s.1.loggers []).leaving fun submitted => s.1.submitAll render submitted

def formatRecord (sys : LogSystem) (logger : LoggerId) (level : LogLevel) (context : LogContext) (call : PrintfCall) :
    Outcome LogSystem Unit :=
  (logPrintf call.vsnprintf call.inlineBuffer call.storage sys.loggers logger level context call.format []).leaving
    fun submitted => sys.submitAll render submitted

end LogSystem

mutual
/-- A call on a logger that does not exist is undefined. -/
def Command.run : Command → LogSystem → Outcome LogSystem Unit
  | .op op, sys =>
      if op.Callable sys then
        match sys.perform render op with
        | none => .undefined
        | some sys => .done sys ()
      else .undefined
  | .throw, sys => .threw sys
  | .attempt body, sys => (body.run sys).tryCatch fun sys => .done sys ()
  | .statement none _ _ _, sys => .done sys ()
  | .statement (some logger) level context operands, sys =>
      if logger < sys.next then
        match sys.loggers.shouldLog 2 logger level with
        | none => .undefined
        | some false => .done sys ()
        | some true =>
            (operands.run (sys, .new logger level context)).leaving (LogSystem.destroyLine render)
      else .undefined
  | .format none _ _ _ _, sys => .done sys ()
  | .format (some logger) level context arguments call, sys =>
      if logger < sys.next then
        match sys.loggers.shouldLog 2 logger level with
        | none => .undefined
        | some false => .done sys ()
        | some true =>
            (arguments.run sys).bind fun sys _ => sys.formatRecord render logger level context call
      else .undefined

def Block.run : Block → LogSystem → Outcome LogSystem Unit
  | .nil, sys => .done sys ()
  | .cons command rest, sys => (command.run sys).bind fun sys _ => rest.run sys

def Operands.run : Operands → LogSystem × LogLine → Outcome (LogSystem × LogLine) Unit
  | .nil, s => .done s ()
  | .cons body insertion allocations rest, (sys, line) =>
      ((body.run sys).within fun sys => (sys, line)).bind fun (sys, line) _ =>
        ((line.perform allocations insertion).within fun line => (sys, line)).bind fun s _ => rest.run s
end

end

/-! ## Loggers that exist -/

mutual
/-- The program calls loggers that exist from the start, and asks for loggers by names that are not empty. -/
def Command.Callable (sys : LogSystem) : Command → Prop
  | .op op => op.Callable sys
  | .throw => True
  | .attempt body => body.Callable sys
  | .statement logger _ _ operands => (∀ l, logger = some l → l < sys.next) ∧ operands.Callable sys
  | .format logger _ _ arguments _ => (∀ l, logger = some l → l < sys.next) ∧ arguments.Callable sys

def Block.Callable (sys : LogSystem) : Block → Prop
  | .nil => True
  | .cons command rest => command.Callable sys ∧ rest.Callable sys

def Operands.Callable (sys : LogSystem) : Operands → Prop
  | .nil => True
  | .cons body _ _ rest => body.Callable sys ∧ rest.Callable sys
end

/-! ## Meaning -/

/-- A logger is shown a level if it and the logger that gets its records admit it, and somebody writes it. -/
def History.Shows (history : List LogSystem.Op) (logger : LoggerId) (level : LogLevel) : Prop :=
  let effective := History.effective history logger
  ¬(level.toU8 < (History.level history logger).toU8 ∨ level.toU8 < (History.level history effective).toU8) ∧
    ∃ appender, History.registrations history effective appender ≠ 0

mutual
/-- The operations that a program performs, behind those of a history, and whether it throws. A statement that is shown
is its operands and then a record, which goes to whoever gets it by then. -/
inductive Command.Means : Command → List LogSystem.Op → List LogSystem.Op → Bool → Prop where
  | op {op history} : Command.Means (.op op) history (op :: history) false
  | throw {history} : Command.Means .throw history history true
  | attempt {body history history' thrown} : Block.Means body history history' thrown →
      Command.Means (.attempt body) history history' false
  | null {level context operands history} : Command.Means (.statement none level context operands) history history false
  | hidden {logger level context operands history} : ¬History.Shows history logger level →
      Command.Means (.statement (some logger) level context operands) history history false
  | shown {logger level context operands history history' message thrown} : History.Shows history logger level →
      Operands.Means operands [] false history message history' thrown →
      Command.Means (.statement (some logger) level context operands) history (.log logger context level message :: history')
        thrown
  | nullFormat {level context arguments call history} :
      Command.Means (.format none level context arguments call) history history false
  | hiddenFormat {logger level context arguments call history} : ¬History.Shows history logger level →
      Command.Means (.format (some logger) level context arguments call) history history false
  | argumentsThrow {logger level context arguments call history history'} : History.Shows history logger level →
      Block.Means arguments history history' true →
      Command.Means (.format (some logger) level context arguments call) history history' true
  | shownFormat {logger level context arguments call history history' message thrown} :
      History.Shows history logger level → Block.Means arguments history history' false →
      call.Writes message thrown →
      Command.Means (.format (some logger) level context arguments call) history
        (.log logger context level message :: history') thrown

inductive Block.Means : Block → List LogSystem.Op → List LogSystem.Op → Bool → Prop where
  | nil {history} : Block.Means .nil history history false
  | cons {command rest history history' history'' thrown} : Command.Means command history history' false →
      Block.Means rest history' history'' thrown → Block.Means (.cons command rest) history history'' thrown
  | threw {command rest history history'} : Command.Means command history history' true →
      Block.Means (.cons command rest) history history' true

/-- From the insertions that the stream has taken, and whether it is bad, to the message. -/
inductive Operands.Means : Operands → List (Insertion × AppendAllocations) → Bool → List LogSystem.Op → Bytes →
    List LogSystem.Op → Bool → Prop where
  | nil {taken bad history} : Operands.Means .nil taken bad history (Insertion.content taken) history false
  | bodyThrows {body insertion allocations rest taken bad history history'} : Block.Means body history history' true →
      Operands.Means (.cons body insertion allocations rest) taken bad history (Insertion.content taken) history' true
  | throws {body allocations rest taken bad history history'} : Block.Means body history history' false →
      Operands.Means (.cons body .throws allocations rest) taken bad history (Insertion.content taken) history' true
  | taken {body insertion allocations rest taken history history' message history'' thrown} :
      Block.Means body history history' false → ¬insertion.Fails taken allocations →
      Operands.Means rest (taken ++ [(insertion, allocations)]) false history' message history'' thrown →
      Operands.Means (.cons body insertion allocations rest) taken false history message history'' thrown
  | refused {body insertion allocations rest taken history history' message history'' thrown} :
      Block.Means body history history' false → insertion ≠ .throws → insertion.Fails taken allocations →
      Operands.Means rest taken true history' message history'' thrown →
      Operands.Means (.cons body insertion allocations rest) taken false history message history'' thrown
  | ignored {body insertion allocations rest taken history history' message history'' thrown} :
      Block.Means body history history' false → insertion ≠ .throws →
      Operands.Means rest taken true history' message history'' thrown →
      Operands.Means (.cons body insertion allocations rest) taken true history message history'' thrown
end

end Pans
