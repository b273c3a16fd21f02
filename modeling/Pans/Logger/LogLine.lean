import Pans.Buffer.InlineBuffer
import Pans.Logger.Graph

/-!
# `LogLine` and `LogPrintf`

A line collects its message in a small buffer behind a stream. Its destructor submits the record.
-/

namespace Pans

def logMessageInlineCapacity : ArraySize := ⟨128, by decide⟩

def printfFormatInlineCapacity : ArraySize := ⟨128, by decide⟩

/-- `LogLine::Impl`, with the badbit of its stream. -/
structure LogLine where
  logger : LoggerId
  level : LogLevel
  context : LogContext
  inlineBuffer : InlineBuffer logMessageInlineCapacity
  badbit : Bool

/-- The calls of `LoggerAccess::Submit`. -/
abbrev Submitted := List (LoggerId × LogRecordView)

namespace LogLine

def new (logger : LoggerId) (level : LogLevel) (context : LogContext) : LogLine := ⟨logger, level, context, .new, false⟩

/-- `none` if the view of the message goes beyond its bytes. -/
def getRecord (loggers : Loggers) (line : LogLine) : Option LogRecordView :=
  line.inlineBuffer.view.map fun message => line.context.getRecord line.level (loggers line.logger).name message

/-- `std::ostream::write`. What the stream buffer throws is caught and becomes the badbit. -/
def write (line : LogLine) (data : Bytes) (count : Int) (allocations : AppendAllocations) : Outcome LogLine Unit :=
  if line.badbit then .done line ()
  else if h : data.length < objectLimit then
    match SmallStreamBuffer.xsputn line.inlineBuffer ⟨data, h⟩ count allocations with
    | .done inlineBuffer written => .done { line with inlineBuffer, badbit := written ≠ count } ()
    | .threw inlineBuffer => .done { line with inlineBuffer, badbit := true } ()
    | .undefined => .undefined
  else .undefined

/-- `stream() << text`, with no width set. -/
def insert (line : LogLine) (text : Bytes) (allocations : AppendAllocations) : Outcome LogLine Unit :=
  line.write text text.length allocations

/-- The destructor. -/
def destroy (loggers : Loggers) (line : LogLine) (submitted : Submitted) : Outcome Submitted Unit :=
  match line.getRecord loggers with
  | none => .undefined
  | some record => .done (submitted ++ [(line.logger, record)]) ()

end LogLine

/-! ## `LogPrintf` -/

/-- `LogPrintf` formats once into its array, and if that is too small once more into a vector. -/
inductive Pass where
  | first
  | second
  deriving DecidableEq, Repr

/-- What an array holds after as much of the text as fits has been stored into it, with a NUL behind it. -/
def storeText (text array : Bytes) : Bytes :=
  let stored := text.take (array.length - 1)
  stored ++ 0 :: array.drop (stored.length + 1)

/-- `std::vsnprintf` with the arguments of one call. `expand` is the text that a format stands for. Any pass may fail,
with a negative value and anything in the array. -/
structure Vsnprintf where
  expand : Bytes → Bytes
  call : Pass → Bytes → Bytes → Int × Bytes
  keeps_size : ∀ pass format array, (call pass format array).2.length = array.length
  returns_size : ∀ pass format array, 0 ≤ (call pass format array).1 →
    (expand format).length < 2 ^ 31 ∧ (call pass format array).1 = (expand format).length
  stores_text : ∀ pass format array, 0 ≤ (call pass format array).1 → array ≠ [] →
    (call pass format array).2 = storeText (expand format) array

/-- Whether the vector of the second pass finds storage, and how the message's requests end. -/
structure PrintfStorage where
  overflowBuffer : Bool
  message : AppendAllocations
  deriving DecidableEq, Repr

def PrintfStorage.Granted (storage : PrintfStorage) : Prop :=
  storage.overflowBuffer = true ∧ storage.message.reserve ≠ none ∧ storage.message.insertData ≠ none

section

variable (vsnprintf : Vsnprintf) (inlineBuffer : CharArray printfFormatInlineCapacity) (storage : PrintfStorage)

/-- The body of `LogPrintf`. The array starts with anything in it; a null format is `none`. -/
def formatLine (line : LogLine) : Option Bytes → Outcome LogLine Unit
  | none => line.insert (ascii "<null-format>") storage.message
  | some format =>
      let first := vsnprintf.call .first format inlineBuffer
      let requiredSize := first.1
      if requiredSize < 0 then line.insert (ascii "<format-error>") storage.message
      else
        let messageSize := requiredSize.toNat
        if messageSize < printfFormatInlineCapacity then line.write first.2 messageSize storage.message
        else if storage.overflowBuffer then
          let second := vsnprintf.call .second format (List.replicate (messageSize + 1) 0)
          let secondResult := second.1
          if secondResult < 0 then line.insert (ascii "<format-error>") storage.message
          else line.write second.2 messageSize storage.message
        else .threw line

def logPrintf (loggers : Loggers) (logger : LoggerId) (level : LogLevel) (context : LogContext) (format : Option Bytes)
    (submitted : Submitted) : Outcome Submitted Unit :=
  (formatLine vsnprintf inlineBuffer storage (.new logger level context) format).leaving
    fun line => line.destroy loggers submitted

end

end Pans
