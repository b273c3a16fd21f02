import Pans.Formatter.Parse
import Pans.Logger.Record

/-!
# `Appender::Impl` and `Logger::Impl`

The members of a logger call its root logger, its formatter and its appenders; each is written here over
what those calls do, and over what the pointers can be. Loggers and appenders are known by their addresses. The
setters refuse null pointers, so those of a `Logger.Impl` are never null.
-/

namespace Pans

abbrev AppenderId := Nat

abbrev LoggerId := Nat

/-! ## Appenders -/

/-- `stream` is what the sink has been given; flushing it gives it nothing more. -/
structure Appender.Impl where
  level : LogLevel
  stream : Bytes
  deriving DecidableEq, Repr

namespace Appender.Impl

def new : Appender.Impl := ⟨.debug, []⟩

def writeUnlocked (this : Appender.Impl) (formattedRecord : Bytes) : Appender.Impl :=
  { this with stream := this.stream ++ formattedRecord }

def flushUnlocked (this : Appender.Impl) : Appender.Impl := this

def append (this : Appender.Impl) (level : LogLevel) (formattedRecord : Bytes) : Appender.Impl :=
  if level.toU8 < this.level.toU8 then this
  else
    let this := this.writeUnlocked formattedRecord
    if level = .fatal then this.flushUnlocked else this

def setLevel (this : Appender.Impl) (level : LogLevel) : Appender.Impl := { this with level }

@[simp] theorem append_level (this : Appender.Impl) (level : LogLevel) (formattedRecord : Bytes) :
    (this.append level formattedRecord).level = this.level := by
  unfold append
  split
  · rfl
  · simp only [writeUnlocked, flushUnlocked, ite_self]

@[simp] theorem append_stream (this : Appender.Impl) (level : LogLevel) (formattedRecord : Bytes) :
    (this.append level formattedRecord).stream =
      this.stream ++ if level.toU8 < this.level.toU8 then [] else formattedRecord := by
  unfold append
  split
  · rw [List.append_nil]
  · simp only [writeUnlocked, flushUnlocked, ite_self]

end Appender.Impl

/-! ## Loggers -/

/-- `F` and `A` are the pointers to formatters and to appenders. -/
structure Logger.Members (F A : Type) where
  name : Bytes
  level : LogLevel
  formatter : F
  appenders : List A
  root : Option LoggerId

namespace Logger.Members

variable {F A : Type}

def shouldLog (rootShouldLog : LoggerId → LogLevel → Option Bool) (this : Logger.Members F A) (level : LogLevel) :
    Option Bool :=
  if level.toU8 < this.level.toU8 then some false
  else if !this.appenders.isEmpty then some true
  else
    match this.root with
    | some root => rootShouldLog root level
    | none => some false

section

variable {S : Type}

/-- `none` when a call does not come back. -/
def submit (rootSubmit : LoggerId → LogRecordView → S → Option S)
    (format : F → LogRecordView → S → Option (S × Bytes)) (append : A → LogLevel → Bytes → S → S)
    (this : Logger.Members F A) (record : LogRecordView) (s : S) : Option S :=
  if record.level.toU8 < this.level.toU8 then some s
  else if this.appenders.isEmpty then
    match this.root with
    | some root => rootSubmit root record s
    | none => some s
  else
    (format this.formatter record s).map fun p =>
      this.appenders.foldl (fun s appender => append appender record.level p.2 s) p.1

def flush (rootFlush : LoggerId → S → Option S) (flushAppender : A → S → S) (this : Logger.Members F A) (s : S) :
    Option S :=
  if this.appenders.isEmpty then
    match this.root with
    | some root => rootFlush root s
    | none => some s
  else some (this.appenders.foldl (fun s appender => flushAppender appender s) s)

def sync (rootSync : LoggerId → S → Option S) (syncAppender : A → S → S) (this : Logger.Members F A) (s : S) :
    Option S :=
  if this.appenders.isEmpty then
    match this.root with
    | some root => rootSync root s
    | none => some s
  else some (this.appenders.foldl (fun s appender => syncAppender appender s) s)

end

def setLevel (this : Logger.Members F A) (level : LogLevel) : Logger.Members F A := { this with level }

def setFormatter (this : Logger.Members F A) (formatter : F) : Logger.Members F A := { this with formatter }

def addAppender (this : Logger.Members F A) (appender : A) : Logger.Members F A :=
  { this with appenders := this.appenders ++ [appender] }

/-- `std::erase` drops every copy. -/
def removeAppender [DecidableEq A] (this : Logger.Members F A) (appender : A) : Logger.Members F A :=
  { this with appenders := this.appenders.filter (· ≠ appender) }

def clearAppenders (this : Logger.Members F A) : Logger.Members F A := { this with appenders := [] }

def setRoot (this : Logger.Members F A) (root : LoggerId) : Logger.Members F A := { this with root := some root }

end Logger.Members

abbrev Logger.Impl := Logger.Members Formatter AppenderId

end Pans
