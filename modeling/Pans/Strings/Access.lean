import Pans.Lib.Recorded
import Pans.Memory
import Pans.Strings.Convert

/-!
# The decoder with its accesses

`DecodeUtf8CodePoint` and the loop of `StringToWString` once more, with nothing known in advance: a byte outside the
text cannot be read, sizes are added and subtracted modulo 2^64, and the loop has fuel instead of a measure.
-/

namespace Pans

namespace StringUtils

/-- What the decoder does that could go wrong. -/
inductive Access where
  | read (index : Nat)
  | subtract (a b : Nat)
  | shift (value : UInt32)
  deriving DecidableEq, Repr

/-- The byte is in the text, the difference does not wrap, and no bit is shifted out. -/
def Access.InRange (text : Bytes) : Access → Prop
  | read index => index < text.length
  | subtract a b => b ≤ a
  | shift value => value.toNat * 2 ^ 6 < 2 ^ 32

def readByte (text : Bytes) (index : Nat) : Recorded Access Byte := ⟨[.read index], text[index]?⟩

def subtractSize (a b : Nat) : Recorded Access Nat := ⟨[.subtract a b], some ((a + 2 ^ 64 - b) % 2 ^ 64)⟩

def shiftLeft6 (value : UInt32) : Recorded Access UInt32 := ⟨[.shift value], some (value <<< 6)⟩

def runContinuations (text : Bytes) : (count offset : Nat) → UInt32 → Recorded Access Decoded
  | 0, offset, codePoint => .pure ⟨true, offset, codePoint⟩
  | count + 1, offset, codePoint =>
      (readByte text offset).bind fun b =>
        let continuation := b.toUInt32
        let offset := addSize offset 1
        if continuation &&& 0xC0 ≠ 0x80 then .pure ⟨false, offset, codePoint⟩
        else (shiftLeft6 codePoint).bind fun shifted =>
          runContinuations text count offset (shifted ||| (continuation &&& 0x3F))

def runRest (text : Bytes) (offset : Nat) (codePoint minimumCodePoint : UInt32) (continuationCount : Nat) :
    Recorded Access Decoded :=
  (subtractSize text.length offset).bind fun remaining =>
    if remaining < continuationCount then .pure ⟨false, offset, codePoint⟩
    else (runContinuations text continuationCount offset codePoint).bind fun d =>
      .pure (if d.ok ∧ (d.codePoint < minimumCodePoint ∨ d.codePoint > maxUnicodeCodePoint ∨
        isHighSurrogate d.codePoint ∨ isLowSurrogate d.codePoint) then { d with ok := false } else d)

def runDecode (text : Bytes) (offset : Nat) (codePoint : UInt32) : Recorded Access Decoded :=
  (readByte text offset).bind fun b =>
    let first := b.toUInt32
    let offset := addSize offset 1
    if first ≤ 0x7F then .pure ⟨true, offset, first⟩
    else if first ≥ 0xC2 ∧ first ≤ 0xDF then runRest text offset (first &&& 0x1F) 0x80 1
    else if first ≥ 0xE0 ∧ first ≤ 0xEF then runRest text offset (first &&& 0x0F) 0x800 2
    else if first ≥ 0xF0 ∧ first ≤ 0xF4 then runRest text offset (first &&& 0x07) 0x10000 3
    else .pure ⟨false, offset, codePoint⟩

/-- There is no result without fuel. -/
def runNarrowLoop {Unit : Type} (push : List Unit → UInt32 → List Unit) (text : Bytes) :
    (fuel offset : Nat) → List Unit → Recorded Access (Option (List Unit))
  | 0, _, _ => ⟨[], none⟩
  | fuel + 1, offset, result =>
      if offset < text.length then
        (runDecode text offset 0).bind fun d =>
          if d.ok then runNarrowLoop push text fuel d.offset (push result d.codePoint) else .pure none
      else .pure (some result)

end StringUtils

end Pans
