import Pans.Buffer.InlineBuffer
import Pans.Formatter.Format
import Pans.Logger.Graph

/-!
# `Logger::Impl::submit` where steps throw

Any growth of the buffer may find no storage, and any `lock` of an appender may throw. The locks are held by
guards, so they are released however a block is left.
-/

namespace Pans

def formattedRecordInlineCapacity : ArraySize := ⟨256, by decide⟩

abbrev FormattedRecordBuffer := InlineBuffer formattedRecordInlineCapacity

inductive HeldLock where
  | logger (logger : LoggerId)
  | appender (appender : AppenderId)
  deriving DecidableEq, Repr

/-- What an appender does with its sink. -/
inductive SinkCall where
  | write (appender : AppenderId) (formattedRecord : Bytes)
  | flush (appender : AppenderId)
  deriving DecidableEq, Repr

/-- The process around a call of `submit`: the loggers and the levels of the appenders, the thread, the locks that it
holds, and what the sinks and `stderr` have been given. -/
structure Submission (σ : Type) where
  loggers : Loggers
  levels : AppenderId → LogLevel
  thread : ThreadState σ
  held : List HeldLock
  sinks : List SinkCall
  stderr : Bytes

/-- How the steps of a record end: the requests for storage of its n-th item, and whether the lock of its n-th
appender throws. -/
structure Faults where
  allocations : Nat → AppendAllocations
  lockThrows : Nat → Bool

/-! ## Formatting into the buffer -/

section

variable {Tm σ : Type} (libc : Libc Tm) (onAssert : AssertHandler σ)

/-- Each item appends once, after everything else it does. No text is longer than an object can be. -/
def FormatItem.formatInto (record : LogRecordView) (item : FormatItem) (allocations : AppendAllocations)
    (st : ThreadState σ) (output : FormattedRecordBuffer) :
    Outcome (ThreadState σ × FormattedRecordBuffer) Unit :=
  match item.format libc onAssert record st [] with
  | none => .undefined
  | some (st, text) =>
      if h : text.length < objectLimit then
        (output.append ⟨text, h⟩ allocations).within fun output => (st, output)
      else .undefined

def formatItemsInto (record : LogRecordView) (allocations : Nat → AppendAllocations) :
    List FormatItem → (place : Nat) → ThreadState σ → FormattedRecordBuffer →
      Outcome (ThreadState σ × FormattedRecordBuffer) Unit
  | [], _, st, output => .done (st, output) ()
  | item :: items, place, st, output =>
      (item.formatInto libc onAssert record (allocations place) st output).bind fun p _ =>
        formatItemsInto record allocations items (place + 1) p.1 p.2

def Formatter.formatInto (F : Formatter) (record : LogRecordView) (allocations : Nat → AppendAllocations)
    (st : ThreadState σ) : Outcome (ThreadState σ × FormattedRecordBuffer) Unit :=
  formatItemsInto libc onAssert record allocations F.items 0 st .new

end

namespace Submission

variable {σ : Type}

/-! ## Appending -/

def writeUnlocked (s : Submission σ) (appender : AppenderId) (formattedRecord : Bytes) : Submission σ :=
  { s with sinks := s.sinks ++ [.write appender formattedRecord] }

def flushUnlocked (s : Submission σ) (appender : AppenderId) : Submission σ :=
  { s with sinks := s.sinks ++ [.flush appender] }

def fwriteStderr (s : Submission σ) (message : Bytes) : Submission σ := { s with stderr := s.stderr ++ message }

def lock (s : Submission σ) (lock : HeldLock) : Submission σ := { s with held := lock :: s.held }

def unlock (s : Submission σ) (lock : HeldLock) : Submission σ := { s with held := s.held.erase lock }

/-- The first 16 bytes: the count that `append` passes is the size of a `std::string_view`. -/
def operationFailed : Bytes := (ascii "pans logger: appender operation failed\n").take 16

def append (s : Submission σ) (lockThrows : Bool) (appender : AppenderId) (level : LogLevel)
    (formattedRecord : Bytes) : Outcome (Submission σ) Unit :=
  if level.toU8 < (s.levels appender).toU8 then .done s ()
  else
    let locked : Outcome (Submission σ) Unit :=
      if lockThrows then .threw s else .done (s.lock (.appender appender)) ()
    (locked.bind fun s _ =>
      let s := s.writeUnlocked appender formattedRecord
      let s := if level = .fatal then s.flushUnlocked appender else s
      .done (s.unlock (.appender appender)) ()).tryCatch fun s => .done (s.fwriteStderr operationFailed) ()

def appendAll (lockThrows : Nat → Bool) (level : LogLevel) (formattedRecord : Bytes) :
    List AppenderId → (place : Nat) → Submission σ → Outcome (Submission σ) Unit
  | [], _, s => .done s ()
  | appender :: appenders, place, s =>
      (s.append (lockThrows place) appender level formattedRecord).bind fun s _ =>
        appendAll lockThrows level formattedRecord appenders (place + 1) s

/-! ## Submitting -/

def formattingFailed : Bytes := ascii "pans logger : record formatting failed\n"

variable {Tm : Type} (libc : Libc Tm) (onAssert : AssertHandler σ)

/-- The local buffer, and the view of it that the appenders get. -/
def format (s : Submission σ) (F : Formatter) (allocations : Nat → AppendAllocations) (record : LogRecordView) :
    Outcome (Submission σ) Bytes :=
  ((F.formatInto libc onAssert record allocations s.thread).bind fun p _ =>
    match p.2.view with
    | some formattedRecord => .done p formattedRecord
    | none => .undefined).within fun p => { s with thread := p.1 }

/-- The `try` block with its handler. -/
def formatAndAppend (faults : Faults) (this : Logger.Impl) (record : LogRecordView) (s : Submission σ) :
    Outcome (Submission σ) Unit :=
  ((s.format libc onAssert this.formatter faults.allocations record).bind fun s formattedRecord =>
    appendAll faults.lockThrows record.level formattedRecord this.appenders 0 s).tryCatch
      fun s => .done (s.fwriteStderr formattingFailed) ()

def submit (faults : Faults) : (fuel : Nat) → LoggerId → LogRecordView → Submission σ → Outcome (Submission σ) Unit
  | 0, _, _, _ => .undefined
  | fuel + 1, logger, record, s =>
      let this := s.loggers logger
      if record.level.toU8 < this.level.toU8 then .done s ()
      else
        let s := s.lock (.logger logger)
        if this.appenders.isEmpty then
          let s := s.unlock (.logger logger)
          match this.root with
          | some root => submit faults fuel root record s
          | none => .done s ()
        else (formatAndAppend libc onAssert faults this record s).within fun s => s.unlock (.logger logger)

/-! ## What gets through -/

/-- The calls on the sink of one appender. -/
def sinkCalls (level : LogLevel) (formattedRecord : Bytes) (appender : AppenderId) : List SinkCall :=
  .write appender formattedRecord :: if level = .fatal then [.flush appender] else []

/-- The appenders that admit a record, each with its place in the list. -/
def admitting (levels : AppenderId → LogLevel) (level : LogLevel) (appenders : List AppenderId) (place : Nat) :
    List (AppenderId × Nat) :=
  (appenders.zipIdx place).filter fun p => ¬level.toU8 < (levels p.1).toU8

/-- In list order, what the sinks get of a record: everything or nothing, by each appender's own lock. -/
def delivered (levels : AppenderId → LogLevel) (lockThrows : Nat → Bool) (level : LogLevel)
    (formattedRecord : Bytes) (appenders : List AppenderId) (place : Nat) : List SinkCall :=
  ((admitting levels level appenders place).filter fun p => !lockThrows p.2).flatMap fun p =>
    sinkCalls level formattedRecord p.1

/-- One complaint for each lock that throws. -/
def complaints (levels : AppenderId → LogLevel) (lockThrows : Nat → Bool) (level : LogLevel)
    (appenders : List AppenderId) (place : Nat) : Bytes :=
  ((admitting levels level appenders place).filter fun p => lockThrows p.2).flatMap fun _ => operationFailed

end Submission

end Pans
