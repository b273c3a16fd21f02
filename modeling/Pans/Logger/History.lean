import Pans.Logger.Manager

/-!
# What a history of operations says

The state of the loggers as a program knows it, from the operations it has performed. Histories have the latest
operation first. Nothing here refers to the lists that the loggers keep.
-/

namespace Pans

open LogSystem

namespace History

/-- `LoggerManager` has given the root logger its first appender before the program starts. -/
def constructed : List Op := [.addAppender root stdout]

def setsLevel (logger : LoggerId) : Op → Option LogLevel
  | .setLevel logger' level => if logger' = logger then some level else none
  | _ => none

def setsFormatter (logger : LoggerId) : Op → Option Formatter
  | .setFormatter logger' formatter => if logger' = logger then some formatter else none
  | _ => none

def setsAppenderLevel (appender : AppenderId) : Op → Option LogLevel
  | .setAppenderLevel appender' level => if appender' = appender then some level else none
  | _ => none

def adds (logger : LoggerId) (appender : AppenderId) : Op → Bool
  | .addAppender logger' appender' => logger' = logger && appender' = appender
  | _ => false

def drops (logger : LoggerId) (appender : AppenderId) : Op → Bool
  | .removeAppender logger' appender' => logger' = logger && appender' = appender
  | .clearAppenders logger' => logger' = logger
  | _ => false

def level (history : List Op) (logger : LoggerId) : LogLevel := (history.findSome? (setsLevel logger)).getD .debug

def formatter (history : List Op) (logger : LoggerId) : Formatter :=
  (history.findSome? (setsFormatter logger)).getD defaultFormatter

def appenderLevel (history : List Op) (appender : AppenderId) : LogLevel :=
  (history.findSome? (setsAppenderLevel appender)).getD .debug

/-- No other level than OFF is set. -/
def KeepsOff (sets : Op → Option LogLevel) (later : List Op) : Prop :=
  ∀ op ∈ later, ∀ level, sets op = some level → level = .off

/-- The logger and the level of a record that is logged. -/
def logs : Op → Option (LoggerId × LogLevel)
  | .log logger _ level _ => some (logger, level)
  | _ => none

/-- How often the appender was added since it was last removed or the appenders were last cleared. -/
def registrations (history : List Op) (logger : LoggerId) (appender : AppenderId) : Nat :=
  ((history ++ constructed).takeWhile fun op => !drops logger appender op).countP (adds logger appender)

/-- The names asked for, each once, in the order of their first request. -/
def names : List Op → List Bytes
  | [] => [ascii "root"]
  | .getLogger name :: history => if name ∈ names history then names history else names history ++ [name]
  | _ :: history => names history

def name (history : List Op) (logger : LoggerId) : Bytes := (names history)[logger]?.getD []

open Classical in
/-- The logger whose appenders get the records of a logger: itself if it has some, else the root logger. -/
noncomputable def effective (history : List Op) (logger : LoggerId) : LoggerId :=
  if ∃ appender, registrations history logger appender ≠ 0 then logger else root

noncomputable def delivered (render : Formatter → LogRecordView → Bytes) (history : List Op) (logger : LoggerId)
    (record : LogRecordView) (appender : AppenderId) : Bytes :=
  let effective := effective history logger
  if record.level.toU8 < (level history logger).toU8 ∨ record.level.toU8 < (level history effective).toU8 then []
  else
    let copies := if record.level.toU8 < (appenderLevel history appender).toU8 then 0
      else registrations history effective appender
    (List.replicate copies (render (formatter history effective) record)).flatten

/-- The record of a message that is logged, with what its line reads around it. -/
def record (history : List Op) (logger : LoggerId) (context : LogContext) (level : LogLevel) (message : Bytes) :
    LogRecordView where
  level := level
  loggerName := name history logger
  message := message
  timestamp := context.timestamp
  elapsed := context.elapsed
  threadId := context.threadId
  fiberId := context.fiberId
  threadName := context.threadName
  fileName := context.fileName
  line := context.line

noncomputable def stream (render : Formatter → LogRecordView → Bytes) (appender : AppenderId) : List Op → Bytes
  | [] => []
  | .log logger context level message :: history =>
      stream render appender history ++
        delivered render history logger (record history logger context level message) appender
  | _ :: history => stream render appender history

end History

end Pans
