import Pans.Buffer.Lemmas.Extent
import Pans.Logger.Assert
import Pans.Logger.LogLine

/-!
# Log statements

`PANS_LOG_LEVEL(logger, level) << a << b << ...;` builds a line, evaluates the operands from left to right, inserts each
of them and destroys the line. The destructor submits what the buffer holds, also when an operand throws.
-/

namespace Pans

/-! ## Insertions -/

/-- What an operand does. A text is written whole, as is the text of a number; `stream().write` may be given any count
of bytes that are there. -/
inductive Insertion where
  | write (data : Chars) (count : Int) (readable : count ≤ data.val.length)
  | put (character : Byte)
  | throws

namespace Insertion

def text (data : Chars) : Insertion := write data data.val.length (Int.le_refl _)

def bytes : Insertion → Bytes
  | write data count _ => data.val.take count.toNat
  | put character => [character]
  | throws => []

def Negative : Insertion → Prop
  | write _ count _ => count < 0
  | _ => False

/-- What insertions write, one behind the other. -/
def content (insertions : List (Insertion × AppendAllocations)) : Bytes := insertions.flatMap (·.1.bytes)

/-- The text of a line after insertions, with the room that their requests for storage gave it. -/
def extent (insertions : List (Insertion × AppendAllocations)) : Extent :=
  insertions.foldl (fun extent insertion =>
    (extent.extend logMessageInlineCapacity insertion.1.bytes.length insertion.2).getD extent)
    ⟨0, logMessageInlineCapacity⟩

/-- An insertion behind others leaves no trace: its operand throws, its count is negative, or it needs storage and is
refused it. -/
def Fails (taken : List (Insertion × AppendAllocations)) (insertion : Insertion) (allocations : AppendAllocations) :
    Prop :=
  insertion = throws ∨ insertion.Negative ∨
    (extent taken).extend logMessageInlineCapacity insertion.bytes.length allocations = none

end Insertion

def SmallStreamBuffer.toIntType (character : Byte) : IntType := character.toUInt32.toInt32

namespace LogLine

/-- `std::ostream::put`. There is no put area, so every character goes to `overflow`. -/
def put (line : LogLine) (character : Byte) (allocations : AppendAllocations) : Outcome LogLine Unit :=
  if line.badbit then .done line ()
  else
    match SmallStreamBuffer.overflow line.inlineBuffer (SmallStreamBuffer.toIntType character) allocations with
    | .done inlineBuffer result => .done { line with inlineBuffer, badbit := result = SmallStreamBuffer.eof } ()
    | .threw inlineBuffer => .done { line with inlineBuffer, badbit := true } ()
    | .undefined => .undefined

/-- `stream() << operand`. -/
def perform (line : LogLine) (allocations : AppendAllocations) : Insertion → Outcome LogLine Unit
  | .write data count _ => line.write data count allocations
  | .put character => line.put character allocations
  | .throws => .threw line

def performAll (line : LogLine) : List (Insertion × AppendAllocations) → Outcome LogLine Unit
  | [] => .done line ()
  | (insertion, allocations) :: insertions =>
      (line.perform allocations insertion).bind fun line _ => line.performAll insertions

end LogLine

/-! ## Statements -/

section

variable (loggers : Loggers) (fuel : Nat)

/-- The macro with its operands. A null logger is `none`; the outer `none` is a `shouldLog` that does not come back. -/
def logStatement (logger : Option LoggerId) (level : LogLevel) (context : LogContext)
    (insertions : List (Insertion × AppendAllocations)) (submitted : Submitted) : Option (Outcome Submitted Unit) :=
  match logger with
  | none => some (.done submitted ())
  | some logger =>
      (loggers.shouldLog fuel logger level).map fun shouldLog =>
        if shouldLog then
          ((LogLine.new logger level context).performAll insertions).leaving fun line => line.destroy loggers submitted
        else .done submitted ()

end

/-! ## Assertions -/

/-- The operands of `PANS_ASSERT2`. -/
def AssertFailure.operands (failure : AssertFailure) (backtrace : Bytes) : List Bytes :=
  [ascii "Assert ", failure.condition, ascii " failed. [", failure.info, ascii "].\nStacktrace:\n", backtrace]

end Pans
