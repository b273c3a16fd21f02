import Pans.Basic

/-!
# `StringUtils`

UTF-8 against wide strings. `wchar_t` has 16 bits on Windows (UTF-16) and 32 bits elsewhere (UTF-32); both
branches of each `if constexpr` are here. A failed assertion ends a conversion, which is `none`; the public
functions then return the empty string.
-/

namespace Pans

namespace StringUtils

def maxUnicodeCodePoint : UInt32 := 0x10FFFF
def highSurrogateFirst : UInt32 := 0xD800
def highSurrogateLast : UInt32 := 0xDBFF
def lowSurrogateFirst : UInt32 := 0xDC00
def lowSurrogateLast : UInt32 := 0xDFFF

def isHighSurrogate (value : UInt32) : Bool := value ≥ highSurrogateFirst && value ≤ highSurrogateLast

def isLowSurrogate (value : UInt32) : Bool := value ≥ lowSurrogateFirst && value ≤ lowSurrogateLast

/-! ## Encoding -/

def toChar (value : UInt32) : Byte := value.toUInt8

def appendUtf8 (output : Bytes) (codePoint : UInt32) : Bytes :=
  if codePoint ≤ 0x7F then
    output ++ [toChar codePoint]
  else if codePoint ≤ 0x7FF then
    output ++ [toChar ((0xC0 : UInt32) ||| (codePoint >>> 6)), toChar ((0x80 : UInt32) ||| (codePoint &&& 0x3F))]
  else if codePoint ≤ 0xFFFF then
    output ++ [toChar ((0xE0 : UInt32) ||| (codePoint >>> 12)), toChar ((0x80 : UInt32) ||| ((codePoint >>> 6) &&& 0x3F)),
      toChar ((0x80 : UInt32) ||| (codePoint &&& 0x3F))]
  else
    output ++ [toChar ((0xF0 : UInt32) ||| (codePoint >>> 18)), toChar ((0x80 : UInt32) ||| ((codePoint >>> 12) &&& 0x3F)),
      toChar ((0x80 : UInt32) ||| ((codePoint >>> 6) &&& 0x3F)), toChar ((0x80 : UInt32) ||| (codePoint &&& 0x3F))]

def wideLoop32 (result : Bytes) : List UInt32 → Option Bytes
  | [] => some result
  | codePoint :: text =>
      if codePoint ≤ maxUnicodeCodePoint ∧ !isHighSurrogate codePoint ∧ !isLowSurrogate codePoint then
        wideLoop32 (appendUtf8 result codePoint) text
      else none

def joinSurrogates (highSurrogate lowSurrogate : UInt32) : UInt32 :=
  (0x10000 : UInt32) + ((highSurrogate - highSurrogateFirst) <<< 10) + (lowSurrogate - lowSurrogateFirst)

/-- The loop of `WStringToString` on UTF-16. A high surrogate takes the next unit with it. -/
def wideLoop16 (result : Bytes) : List UInt16 → Option Bytes
  | [] => some result
  | unit :: text =>
      let codePoint := unit.toUInt32
      if isHighSurrogate codePoint then
        match text with
        | [] => none
        | next :: text =>
            let lowSurrogate := next.toUInt32
            if isLowSurrogate lowSurrogate then
              wideLoop16 (appendUtf8 result (joinSurrogates codePoint lowSurrogate)) text
            else none
      else if !isLowSurrogate codePoint then wideLoop16 (appendUtf8 result codePoint) text
      else none

def wStringToString32 (text : List UInt32) : Bytes := (wideLoop32 [] text).getD []

def wStringToString16 (text : List UInt16) : Bytes := (wideLoop16 [] text).getD []

/-! ## Decoding -/

/-- What `DecodeUtf8CodePoint` leaves behind: its return value and its two reference parameters. -/
structure Decoded where
  ok : Bool
  offset : Nat
  codePoint : UInt32
  deriving DecidableEq, Repr

/-- The loop over the continuation bytes. The length check in front of it puts every read in range. -/
def continuationLoop (text : Bytes) (offset : Nat) (codePoint : UInt32) :
    (count : Nat) → offset + count ≤ text.length → Decoded
  | 0, _ => ⟨true, offset, codePoint⟩
  | count + 1, h =>
      let continuation := text[offset].toUInt32
      if continuation &&& 0xC0 ≠ 0x80 then ⟨false, offset + 1, codePoint⟩
      else continuationLoop text (offset + 1) ((codePoint <<< 6) ||| (continuation &&& 0x3F)) count (by omega)

/-- The bytes after the first one, and the checks on the finished code point. -/
def decodeRest (text : Bytes) (offset : Nat) (hle : offset ≤ text.length) (codePoint minimumCodePoint : UInt32)
    (continuationCount : Nat) : Decoded :=
  if h : text.length - offset < continuationCount then ⟨false, offset, codePoint⟩
  else
    let d := continuationLoop text offset codePoint continuationCount (by omega)
    if d.ok ∧ (d.codePoint < minimumCodePoint ∨ d.codePoint > maxUnicodeCodePoint ∨
        isHighSurrogate d.codePoint ∨ isLowSurrogate d.codePoint) then { d with ok := false }
    else d

def decodeUtf8CodePoint (text : Bytes) (offset : Nat) (h : offset < text.length) (codePoint : UInt32) :
    Decoded :=
  let first := text[offset].toUInt32
  if first ≤ 0x7F then ⟨true, offset + 1, first⟩
  else if first ≥ 0xC2 ∧ first ≤ 0xDF then decodeRest text (offset + 1) h (first &&& 0x1F) 0x80 1
  else if first ≥ 0xE0 ∧ first ≤ 0xEF then decodeRest text (offset + 1) h (first &&& 0x0F) 0x800 2
  else if first ≥ 0xF0 ∧ first ≤ 0xF4 then decodeRest text (offset + 1) h (first &&& 0x07) 0x10000 3
  else ⟨false, offset + 1, codePoint⟩

/-! The decoder moves on, so the loops over a text end. -/

theorem continuationLoop_offset (text : Bytes) (offset : Nat) (codePoint : UInt32) (count : Nat)
    (h : offset + count ≤ text.length) :
    offset ≤ (continuationLoop text offset codePoint count h).offset ∧
      (continuationLoop text offset codePoint count h).offset ≤ offset + count := by
  induction count generalizing offset codePoint with
  | zero => exact ⟨Nat.le_refl _, Nat.le_refl _⟩
  | succ count ih =>
      simp only [continuationLoop]
      split
      · simp only
        omega
      · have := ih (offset + 1) ((codePoint <<< 6) ||| (text[offset].toUInt32 &&& 0x3F)) (by omega)
        omega

theorem decodeRest_offset (text : Bytes) (offset : Nat) (hle : offset ≤ text.length)
    (codePoint minimum : UInt32) (count : Nat) :
    offset ≤ (decodeRest text offset hle codePoint minimum count).offset ∧
      (decodeRest text offset hle codePoint minimum count).offset ≤ offset + count ∧
      (decodeRest text offset hle codePoint minimum count).offset ≤ text.length := by
  simp only [decodeRest]
  split
  · simp only
    omega
  · have := continuationLoop_offset text offset codePoint count (by omega)
    split
    · simp only
      omega
    · omega

theorem decodeUtf8CodePoint_offset (text : Bytes) (offset : Nat) (h : offset < text.length)
    (codePoint : UInt32) :
    offset < (decodeUtf8CodePoint text offset h codePoint).offset ∧
      (decodeUtf8CodePoint text offset h codePoint).offset ≤ offset + 4 ∧
      (decodeUtf8CodePoint text offset h codePoint).offset ≤ text.length := by
  have hrest := decodeRest_offset text (offset + 1) h
  simp only [decodeUtf8CodePoint]
  split
  · simp only
    omega
  split
  · have := hrest (text[offset].toUInt32 &&& 0x1F) 0x80 1
    omega
  split
  · have := hrest (text[offset].toUInt32 &&& 0x0F) 0x800 2
    omega
  split
  · have := hrest (text[offset].toUInt32 &&& 0x07) 0x10000 3
    omega
  · simp only
    omega

/-- The loop of `StringToWString`. `push` is the branch for the width of `wchar_t`. -/
def narrowLoop {Unit : Type} (push : List Unit → UInt32 → List Unit) (text : Bytes) (offset : Nat)
    (result : List Unit) : Option (List Unit) :=
  if h : offset < text.length then
    let d := decodeUtf8CodePoint text offset h 0
    have := decodeUtf8CodePoint_offset text offset h 0
    if d.ok then narrowLoop push text d.offset (push result d.codePoint) else none
  else some result
termination_by text.length - offset

def pushUtf32 (result : List UInt32) (codePoint : UInt32) : List UInt32 := result ++ [codePoint]

def pushUtf16 (result : List UInt16) (codePoint : UInt32) : List UInt16 :=
  if codePoint ≤ 0xFFFF then result ++ [codePoint.toUInt16]
  else
    let codePoint := codePoint - 0x10000
    result ++ [(highSurrogateFirst + (codePoint >>> 10)).toUInt16,
      (lowSurrogateFirst + (codePoint &&& 0x3FF)).toUInt16]

def stringToWString32 (text : Bytes) : List UInt32 := (narrowLoop pushUtf32 text 0 []).getD []

def stringToWString16 (text : Bytes) : List UInt16 := (narrowLoop pushUtf16 text 0 []).getD []

end StringUtils

end Pans
