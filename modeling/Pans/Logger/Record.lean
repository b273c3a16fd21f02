import Pans.Basic

/-!
# Log levels and log records
-/

namespace Pans

inductive LogLevel where
  | debug
  | info
  | warn
  | error
  | fatal
  | off
  deriving DecidableEq, Repr

namespace LogLevel

def toU8 : LogLevel → UInt8
  | debug => 0
  | info => 1
  | warn => 2
  | error => 3
  | fatal => 4
  | off => 5

def toString : LogLevel → Bytes
  | debug => ascii "DEBUG"
  | info => ascii "INFO"
  | warn => ascii "WARN"
  | error => ascii "ERROR"
  | fatal => ascii "FATAL"
  | off => ascii "OFF"

theorem fatal_lt_iff {level : LogLevel} : fatal.toU8 < level.toU8 ↔ level = off := by
  cases level <;> decide

end LogLevel

/-- A record on its way through a logger. Times are counts of nanoseconds. -/
structure LogRecordView where
  level : LogLevel
  loggerName : Bytes
  message : Bytes
  timestamp : Int64
  elapsed : Int64
  threadId : UInt64
  fiberId : UInt64
  threadName : Bytes
  fileName : Bytes
  line : UInt32
  deriving DecidableEq, Repr

/-- What a `LogLine` reads around it when it is built. -/
structure LogContext where
  timestamp : Int64
  elapsed : Int64
  threadId : UInt64
  fiberId : UInt64
  threadName : Bytes
  fileName : Bytes
  line : UInt32
  deriving DecidableEq, Repr

def LogContext.getRecord (context : LogContext) (level : LogLevel) (loggerName message : Bytes) : LogRecordView where
  level := level
  loggerName := loggerName
  message := message
  timestamp := context.timestamp
  elapsed := context.elapsed
  threadId := context.threadId
  fiberId := context.fiberId
  threadName := context.threadName
  fileName := context.fileName
  line := context.line

end Pans
