import Pans.Formatter.Construct
import Pans.Logger.Assert
import Pans.Logger.Manager

/-!
# Calls with arguments that are refused

The loggers of a process with the pointers that they hold, any of which could be null. A refused argument fails an
assertion, which logs a FATAL record through the root logger; a release build drops the `assert` behind it.
-/

namespace Pans

/-! ## Pointers -/

/-- A null pointer is `none`. -/
abbrev Logger.Nullable := Logger.Members (Option Formatter) (Option AppenderId)

namespace Logger.Nullable

/-- Empty if there is no formatter. -/
def getFormatterPattern (this : Logger.Nullable) : Bytes :=
  match this.formatter with
  | none => []
  | some formatter => formatter.pattern

/-- The pattern that the constructor parses is accepted. -/
def new (name : Bytes) : Logger.Nullable where
  name := name
  level := .debug
  formatter := some defaultFormatter
  appenders := []
  root := none

end Logger.Nullable

/-- A call through a pointer. The state is `none` once a null pointer has been followed. -/
def follow {S : Type} (call : AppenderId → S → S) (appender : Option AppenderId) (s : Option S) : Option S :=
  appender.bind fun appender => s.map (call appender)

/-- `AppenderAccess::Append`, which skips a null pointer. -/
def appendUnlessNull (appender : Option AppenderId) (level : LogLevel) (formattedRecord : Bytes)
    (appenders : AppenderId → Appender.Impl) : AppenderId → Appender.Impl :=
  match appender with
  | none => appenders
  | some appender => Function.update appenders appender ((appenders appender).append level formattedRecord)

/-! ## The process -/

/-- As a `LogSystem`, with the number of assertions that have failed. -/
structure Process where
  loggers : LoggerId → Logger.Nullable
  registry : List (Bytes × LoggerId)
  next : LoggerId
  appenders : AppenderId → Appender.Impl
  failedAssertions : Nat

namespace Process

open LogSystem (root stdout)

def initial : Process where
  loggers := Function.update (fun _ => .new []) root ((Logger.Nullable.new (ascii "root")).addAppender (some stdout))
  registry := [(ascii "root", root)]
  next := 1
  appenders := fun _ => Appender.Impl.new
  failedAssertions := 0

def onLogger (s : Process) (logger : LoggerId) (f : Logger.Nullable → Logger.Nullable) : Process :=
  { s with loggers := Function.update s.loggers logger (f (s.loggers logger)) }

def onAppender (s : Process) (appender : AppenderId) (f : Appender.Impl → Appender.Impl) : Process :=
  { s with appenders := Function.update s.appenders appender (f (s.appenders appender)) }

def shouldLog (s : Process) : (fuel : Nat) → LoggerId → LogLevel → Option Bool
  | 0, _, _ => none
  | fuel + 1, logger, level => (s.loggers logger).shouldLog (s.shouldLog fuel) level

section

variable {S : Type}

def flushAll (s : Process) (flushAppender : AppenderId → S → S) :
    (fuel : Nat) → LoggerId → Option S → Option (Option S)
  | 0, _, _ => none
  | fuel + 1, logger, state => (s.loggers logger).flush (s.flushAll flushAppender fuel) (follow flushAppender) state

def syncAll (s : Process) (syncAppender : AppenderId → S → S) :
    (fuel : Nat) → LoggerId → Option S → Option (Option S)
  | 0, _, _ => none
  | fuel + 1, logger, state => (s.loggers logger).sync (s.syncAll syncAppender fuel) (follow syncAppender) state

end

/-- What a call of the appenders leaves of them. -/
def withAppenders (s : Process) (result : Option (AppenderId → Appender.Impl)) : Outcome Process Unit :=
  match result with
  | none => .undefined
  | some appenders => .done { s with appenders } ()

/-- The sinks are given nothing more. -/
def flush (s : Process) (logger : LoggerId) : Outcome Process Unit :=
  s.withAppenders (s.flushAll (fun appender appenders =>
    Function.update appenders appender (appenders appender).flushUnlocked) 2 logger (some s.appenders)).join

/-- Nor are they by `sync`. -/
def sync (s : Process) (logger : LoggerId) : Outcome Process Unit :=
  s.withAppenders (s.syncAll (fun _ appenders => appenders) 2 logger (some s.appenders)).join

section

variable (render : Formatter → LogRecordView → Bytes)

def submit (s : Process) : (fuel : Nat) → LoggerId → LogRecordView → (AppenderId → Appender.Impl) →
    Option (AppenderId → Appender.Impl)
  | 0, _, _, _ => none
  | fuel + 1, logger, record, appenders =>
      (s.loggers logger).submit (s.submit fuel)
        (fun F record appenders => F.map fun F => (appenders, render F record)) appendUnlessNull record appenders

/-- `PANS_LOG_LEVEL`. -/
def log (s : Process) (logger : LoggerId) (context : LogContext) (level : LogLevel) (message : Bytes) :
    Outcome Process Unit :=
  match s.shouldLog 2 logger level with
  | none => .undefined
  | some false => .done s ()
  | some true =>
      let record := context.getRecord level (s.loggers logger).name message
      s.withAppenders (s.submit render 2 logger record s.appenders)

variable (surroundings : Nat → LogContext × Bytes)

/-- `PANS_ASSERT2`. The n-th failed assertion finds the clock, the thread and the stack as in `surroundings n`. -/
def assertFailed (failure : AssertFailure) (s : Process) : Outcome Process Unit :=
  let around := surroundings s.failedAssertions
  log render { s with failedAssertions := s.failedAssertions + 1 } root around.1 .fatal (failure.message around.2)

/-! ## The calls -/

def getLogger (s : Process) (name : Bytes) : Outcome Process (Option LoggerId) :=
  if name.isEmpty then
    assertRetVal (assertFailed render surroundings)
      ⟨ascii "!name.empty()", ascii "logger name cannot be empty"⟩ none s
  else
    match s.registry.lookup name with
    | some logger => .done s (some logger)
    | none =>
        let members := (Logger.Nullable.new name).setRoot root
        .done { s with
          loggers := Function.update s.loggers s.next members
          registry := s.registry ++ [(name, s.next)]
          next := s.next + 1 } (some s.next)

/-- `Logger::Impl::setFormatter`. -/
def implSetFormatter (s : Process) (logger : LoggerId) (formatter : Option Formatter) : Outcome Process Unit :=
  if formatter = none then
    assertRetVal (assertFailed render surroundings)
      ⟨ascii "formatter != nullptr", ascii "logger formatter cannot be null"⟩ () s
  else .done (s.onLogger logger (·.setFormatter formatter)) ()

/-- `Logger::setFormatter`. -/
def setFormatter (s : Process) (logger : LoggerId) (pattern : Bytes) : Outcome Process Unit :=
  (Formatter.construct (assertFailed render surroundings) pattern s).bind fun s formatter =>
    implSetFormatter render surroundings s logger (some formatter)

def addAppender (s : Process) (logger : LoggerId) (appender : Option AppenderId) : Outcome Process Unit :=
  if appender = none then
    assertRetVal (assertFailed render surroundings)
      ⟨ascii "appender != nullptr", ascii "logger appender cannot be null"⟩ () s
  else .done (s.onLogger logger (·.addAppender appender)) ()

inductive Call where
  | getLogger (name : Bytes)
  | setLevel (logger : LoggerId) (level : LogLevel)
  | setFormatter (logger : LoggerId) (pattern : Bytes)
  | implSetFormatter (logger : LoggerId) (formatter : Option Formatter)
  | addAppender (logger : LoggerId) (appender : Option AppenderId)
  | removeAppender (logger : LoggerId) (appender : Option AppenderId)
  | clearAppenders (logger : LoggerId)
  | setAppenderLevel (appender : AppenderId) (level : LogLevel)
  | log (logger : LoggerId) (context : LogContext) (level : LogLevel) (message : Bytes)
  | flush (logger : LoggerId)
  | sync (logger : LoggerId)

namespace Call

/-- The logger that the call is made on, if it is made on one. -/
def logger : Call → Option LoggerId
  | .getLogger _ => none
  | .setLevel logger _ => some logger
  | .setFormatter logger _ => some logger
  | .implSetFormatter logger _ => some logger
  | .addAppender logger _ => some logger
  | .removeAppender logger _ => some logger
  | .clearAppenders logger => some logger
  | .setAppenderLevel _ _ => none
  | .log logger _ _ _ => some logger
  | .flush logger => some logger
  | .sync logger => some logger

/-- A program holds the loggers that exist. -/
def Callable (s : Process) (call : Call) : Prop := ∀ logger, call.logger = some logger → logger < s.next

/-- The pattern that the call gives to the logger, if it is accepted. -/
def accepts (logger : LoggerId) : Call → Option Bytes
  | .setFormatter logger' pattern => if logger' = logger ∧ (Formatter.new pattern).isSome then some pattern else none
  | .implSetFormatter logger' formatter => if logger' = logger then formatter.map Formatter.pattern else none
  | _ => none

end Call

def perform (s : Process) : Call → Outcome Process Unit
  | .getLogger name => (s.getLogger render surroundings name).bind fun s _ => .done s ()
  | .setLevel logger level => .done (s.onLogger logger (·.setLevel level)) ()
  | .setFormatter logger pattern => s.setFormatter render surroundings logger pattern
  | .implSetFormatter logger formatter => s.implSetFormatter render surroundings logger formatter
  | .addAppender logger appender => s.addAppender render surroundings logger appender
  | .removeAppender logger appender => .done (s.onLogger logger (·.removeAppender appender)) ()
  | .clearAppenders logger => .done (s.onLogger logger (·.clearAppenders)) ()
  | .setAppenderLevel appender level => .done (s.onAppender appender (·.setLevel level)) ()
  | .log logger context level message => s.log render logger context level message
  | .flush logger => s.flush logger
  | .sync logger => s.sync logger

/-- A call that throws is a step too: the program can catch what it throws. -/
def Step (s : Process) (call : Call) (s' : Process) : Prop :=
  call.Callable s ∧ (s.perform render surroundings call).after = some s'

end

/-- Only what the sinks have been given may differ. -/
structure SameConfiguration (s s' : Process) : Prop where
  loggers : s'.loggers = s.loggers
  registry : s'.registry = s.registry
  next : s'.next = s.next
  appenderLevel : ∀ appender, (s'.appenders appender).level = (s.appenders appender).level

end Process

end Pans
