import Pans.Lib.Growable
import Pans.Memory

/-!
# `InlineBuffer` and `SmallStreamBuffer`

A byte string that lives in a fixed array until it outgrows it.
-/

namespace Pans

structure InlineBuffer (inlineCapacity : ArraySize) where
  inline : CharArray inlineCapacity
  overflow : Growable Byte (objectLimit - 1)
  size : Nat
  deriving DecidableEq

/-- How the requests for storage end that an `append` may make. -/
structure AppendAllocations where
  reserve : Allocation
  insertInline : Allocation
  insertData : Allocation
  deriving DecidableEq, Repr

namespace InlineBuffer

variable {inlineCapacity : ArraySize}

def new : InlineBuffer inlineCapacity := ⟨CharArray.zeros inlineCapacity, Growable.empty, 0⟩

/-- The branch of `append` that moves the inline bytes into the vector. -/
def spill (this : InlineBuffer inlineCapacity) (size : Nat) (allocations : AppendAllocations) :
    Outcome (InlineBuffer inlineCapacity) Unit :=
  let requiredCapacity := addSize this.size size
  ((this.overflow.reserve (max requiredCapacity (mulSize 2 inlineCapacity)) allocations.reserve).bind
    fun overflow _ =>
      match charRange this.inline this.size with
      | some bytes => overflow.insertEnd bytes allocations.insertInline
      | none => .undefined).within fun overflow => { this with overflow }

def insertData (this : InlineBuffer inlineCapacity) (data : Chars) (allocations : AppendAllocations) :
    Outcome (InlineBuffer inlineCapacity) Unit :=
  ((this.overflow.insertEnd data allocations.insertData).within fun overflow => { this with overflow }).bind
    fun this _ => .done { this with size := addSize this.size data.val.length } ()

def append (this : InlineBuffer inlineCapacity) (data : Chars) (allocations : AppendAllocations) :
    Outcome (InlineBuffer inlineCapacity) Unit :=
  let size := data.val.length
  if size = 0 then .done this ()
  else if this.overflow.toList.isEmpty ∧ addSize size this.size ≤ inlineCapacity then
    ((memcpy this.inline this.size data).within fun inline => { this with inline }).bind
      fun this _ => .done { this with size := addSize this.size size } ()
  else if this.overflow.toList.isEmpty then
    (this.spill size allocations).bind fun this _ => this.insertData data allocations
  else this.insertData data allocations

def appendChar (this : InlineBuffer inlineCapacity) (value : Byte) (allocations : AppendAllocations) :
    Outcome (InlineBuffer inlineCapacity) Unit :=
  this.append ⟨[value], Nat.one_lt_two_pow (by decide)⟩ allocations

/-- The bytes that `data()` points to. -/
def data (this : InlineBuffer inlineCapacity) : Bytes :=
  if this.overflow.toList.isEmpty then this.inline else this.overflow.toList

/-- `none` if the view goes beyond the bytes. -/
def view (this : InlineBuffer inlineCapacity) : Option Bytes := charRange this.data this.size

end InlineBuffer

/-! ## The stream buffer -/

/-- `std::streambuf::int_type`. -/
abbrev IntType := Int32

namespace SmallStreamBuffer

variable {inlineCapacity : ArraySize}

def eof : IntType := -1

def notEof (character : IntType) : IntType := if character = eof then 0 else character

def toCharType (character : IntType) : Byte := character.toUInt32.toUInt8

def xsputn (buffer : InlineBuffer inlineCapacity) (data : Chars) (size : Int) (allocations : AppendAllocations) :
    Outcome (InlineBuffer inlineCapacity) Int :=
  if size ≤ 0 then .done buffer 0
  else if size ≤ data.val.length then
    (buffer.append ⟨data.val.take size.toNat, Nat.lt_of_le_of_lt (List.length_take_le' _ _) data.property⟩
      allocations).bind fun buffer _ => .done buffer size
  else .undefined

def overflow (buffer : InlineBuffer inlineCapacity) (character : IntType) (allocations : AppendAllocations) :
    Outcome (InlineBuffer inlineCapacity) IntType :=
  if character = eof then .done buffer (notEof character)
  else (buffer.appendChar (toCharType character) allocations).bind fun buffer _ => .done buffer character

end SmallStreamBuffer

/-! ## Sequences of writes -/

/-- The calls that write. `xsputn` is given a size within the bytes that its pointer leads to. -/
inductive Write where
  | append (data : Chars)
  | appendChar (value : Byte)
  | xsputn (data : Chars) (size : Int) (readable : size ≤ data.val.length)
  | overflow (character : IntType)

namespace Write

variable {inlineCapacity : ArraySize}

/-- What a call returns. -/
inductive Result where
  | void
  | size (n : Int)
  | character (c : IntType)
  deriving DecidableEq, Repr

def perform (buffer : InlineBuffer inlineCapacity) (allocations : AppendAllocations) :
    Write → Outcome (InlineBuffer inlineCapacity) Result
  | append data => (buffer.append data allocations).bind fun buffer _ => .done buffer .void
  | appendChar value => (buffer.appendChar value allocations).bind fun buffer _ => .done buffer .void
  | xsputn data size _ =>
      (SmallStreamBuffer.xsputn buffer data size allocations).bind fun buffer n => .done buffer (.size n)
  | overflow character =>
      (SmallStreamBuffer.overflow buffer character allocations).bind fun buffer c => .done buffer (.character c)

/-- The writes up to the first that throws. -/
def performAll (buffer : InlineBuffer inlineCapacity) :
    List (Write × AppendAllocations) → Outcome (InlineBuffer inlineCapacity) (List Result)
  | [] => .done buffer []
  | (write, allocations) :: writes =>
      (write.perform buffer allocations).bind fun buffer result =>
        (performAll buffer writes).bind fun buffer results => .done buffer (result :: results)

end Write

end Pans
