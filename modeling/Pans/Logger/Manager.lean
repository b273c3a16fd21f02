import Mathlib.Logic.Function.Basic
import Pans.Logger.Graph

/-!
# `LoggerManager` and sequential use of the loggers

The loggers and appenders of a process, and the operations that a program performs on them one after the other.
A call that fails an assertion on its arguments logs a FATAL record to the root logger and changes nothing else,
so it is the operation `log` here.
-/

namespace Pans

def defaultLogPattern : Bytes := ascii "%d{%Y-%m-%d %H:%M:%S}.%u%Tthread=%t%Tfiber=%F%T[%p]%T%f:%l%T%m%n"

def defaultFormatter : Formatter where
  pattern := defaultLogPattern
  items := [.dateTime (ascii "%Y-%m-%d %H:%M:%S"), .literal (ascii "."), .microseconds, .tab,
    .literal (ascii "thread="), .threadId, .tab, .literal (ascii "fiber="), .fiberId, .tab,
    .literal (ascii "["), .level, .literal (ascii "]"), .tab, .fileName, .literal (ascii ":"), .line, .tab,
    .message, .newLine]
  parsed := by decide +kernel

def Logger.Impl.new (name : Bytes) : Logger.Impl where
  name := name
  level := .debug
  formatter := defaultFormatter
  appenders := []
  root := none

/-- The process: `loggers` and `appenders` are its heap, `registry` is `loggers_`, and the loggers with addresses
below `next` exist. -/
structure LogSystem where
  loggers : Loggers
  registry : List (Bytes × LoggerId)
  next : LoggerId
  appenders : AppenderId → Appender.Impl

namespace LogSystem

def root : LoggerId := 0

def stdout : AppenderId := 0

def initial : LogSystem where
  loggers := Function.update (fun _ => Logger.Impl.new []) root ((Logger.Impl.new (ascii "root")).addAppender stdout)
  registry := [(ascii "root", root)]
  next := 1
  appenders := fun _ => Appender.Impl.new

def getLogger (sys : LogSystem) (name : Bytes) : LogSystem × Option LoggerId :=
  if name.isEmpty then (sys, none)
  else
    match sys.registry.lookup name with
    | some logger => (sys, some logger)
    | none =>
        let impl := (Logger.Impl.new name).setRoot root
        ({ sys with
            loggers := Function.update sys.loggers sys.next impl
            registry := sys.registry ++ [(name, sys.next)]
            next := sys.next + 1 }, some sys.next)

def onLogger (sys : LogSystem) (logger : LoggerId) (f : Logger.Impl → Logger.Impl) : LogSystem :=
  { sys with loggers := Function.update sys.loggers logger (f (sys.loggers logger)) }

def onAppender (sys : LogSystem) (appender : AppenderId) (f : Appender.Impl → Appender.Impl) : LogSystem :=
  { sys with appenders := Function.update sys.appenders appender (f (sys.appenders appender)) }

section

variable (render : Formatter → LogRecordView → Bytes)

/-- `LoggerAccess::Submit`. A registered logger is the root logger or one link away from it. -/
def submitRecord (sys : LogSystem) (logger : LoggerId) (record : LogRecordView) : Option LogSystem :=
  let format := fun _ F record appenders => some (appenders, render F record)
  let append := fun _ appender level text appenders =>
    Function.update appenders appender (Appender.Impl.append (appenders appender) level text)
  (sys.loggers.submit format append 2 logger record sys.appenders).map fun appenders => { sys with appenders }

/-- `LogLine::~LogLine`. -/
def log (sys : LogSystem) (logger : LoggerId) (context : LogContext) (level : LogLevel) (message : Bytes) :
    Option LogSystem :=
  sys.submitRecord render logger (context.getRecord level (sys.loggers logger).name message)

/-- The operations. A formatter is here one whose pattern was accepted. -/
inductive Op where
  | getLogger (name : Bytes)
  | setLevel (logger : LoggerId) (level : LogLevel)
  | setFormatter (logger : LoggerId) (formatter : Formatter)
  | addAppender (logger : LoggerId) (appender : AppenderId)
  | removeAppender (logger : LoggerId) (appender : AppenderId)
  | clearAppenders (logger : LoggerId)
  | setAppenderLevel (appender : AppenderId) (level : LogLevel)
  | log (logger : LoggerId) (context : LogContext) (level : LogLevel) (message : Bytes)

/-- What a program can call: it holds the loggers that exist, and the names it asks for are not empty. -/
def Op.Callable (sys : LogSystem) : Op → Prop
  | .getLogger name => name ≠ []
  | .setLevel logger _ => logger < sys.next
  | .setFormatter logger _ => logger < sys.next
  | .addAppender logger _ => logger < sys.next
  | .removeAppender logger _ => logger < sys.next
  | .clearAppenders logger => logger < sys.next
  | .setAppenderLevel _ _ => True
  | .log logger _ _ _ => logger < sys.next

/-- `none` if a submit runs out of fuel. -/
def perform (sys : LogSystem) : Op → Option LogSystem
  | .getLogger name => some (sys.getLogger name).1
  | .setLevel logger level => some (sys.onLogger logger (·.setLevel level))
  | .setFormatter logger formatter => some (sys.onLogger logger (·.setFormatter formatter))
  | .addAppender logger appender => some (sys.onLogger logger (·.addAppender appender))
  | .removeAppender logger appender => some (sys.onLogger logger (·.removeAppender appender))
  | .clearAppenders logger => some (sys.onLogger logger Logger.Members.clearAppenders)
  | .setAppenderLevel appender level => some (sys.onAppender appender (·.setLevel level))
  | .log logger context level message => sys.log render logger context level message

def Step (sys : LogSystem) (op : Op) (sys' : LogSystem) : Prop := op.Callable sys ∧ sys.perform render op = some sys'

end

end LogSystem

end Pans
