import Pans.Formatter.Decimal
import Pans.Lib.Delimiter
import Pans.Utils.Backtrace

/-!
# `GetBacktrace`

The calls of a thread as text, one line for each frame. What the C library and libdwfl say about an address is a
parameter.
-/

namespace Pans

abbrev Address := UInt64

/-- `<execinfo.h>` on the calling thread: its return addresses, the most recent first, and their descriptions.
`backtrace_symbols` yields null if it is refused storage. -/
structure ExecInfo where
  stack : List Address
  describe : Address → Bytes
  granted : Bool

def ExecInfo.backtrace (info : ExecInfo) (size : Nat) : List Address := info.stack.take size

def ExecInfo.backtraceSymbols (info : ExecInfo) (frames : List Address) : Option (List Bytes) :=
  if info.granted then some (frames.map info.describe) else none

/-- An open libdwfl session. `lineinfo` yields a null pointer where the file is not known. -/
structure Dwfl where
  Line : Type
  getsrc : Address → Option Line
  lineinfo : Line → Option Bytes × Int

/-- The member is null if the session cannot be opened. -/
structure SourceLocationParser where
  dwfl : Option Dwfl

/-- `parse`. A return address is that of the next instruction. -/
def SourceLocationParser.parse (this : SourceLocationParser) (frame : Address) (isReturnAddress : Bool) : Bytes :=
  match this.dwfl with
  | none => []
  | some dwfl =>
      let address := if isReturnAddress ∧ frame > 0 then frame - 1 else frame
      match dwfl.getsrc address with
      | none => []
      | some line =>
          match dwfl.lineinfo line with
          | (none, _) => []
          | (some fileName, lineNumber) =>
              if lineNumber ≤ 0 then [] else fileName ++ ascii ":" ++ numeral lineNumber

/-- `std::clamp`. -/
def clamp (value low high : Int) : Int := if value < low then low else if high < value then high else value

section

variable (info : ExecInfo) (parser : SourceLocationParser) (cxaDemangle : Bytes → Int × Option Bytes) (linePrefix : Bytes)

/-- The loop over the frames from `i` on. -/
def backtraceLoop (firstFrame : Nat) : (i : Nat) → List (Address × Bytes) → (stream : Bytes) → Bytes
  | _, [], stream => stream
  | i, (frame, symbol) :: frames, stream =>
      let stream := stream ++ linePrefix ++ ascii "#" ++ numeral (i - firstFrame) ++ ascii " " ++
        demangleBacktraceSymbol cxaDemangle (some symbol)
      let sourceLocation := parser.parse frame (0 < i)
      let stream := if sourceLocation.isEmpty then stream else stream ++ ascii "at" ++ sourceLocation
      backtraceLoop firstFrame (i + 1) frames (stream ++ [byte '\n'])

def getBacktrace (size skip : Int32) : Bytes :=
  if size.toInt ≤ 0 then []
  else
    let frames := info.backtrace size.toInt.toNat
    let frameCount := frames.length
    if frameCount = 0 then []
    else
      match info.backtraceSymbols frames with
      | none => []
      | some symbols =>
          let firstFrame := (clamp skip.toInt 0 frameCount).toNat
          backtraceLoop parser cxaDemangle linePrefix firstFrame firstFrame ((frames.zip symbols).drop firstFrame) []

/-! ## Lines -/

/-- What stands behind the number of a frame. -/
def frameText (i : Nat) (frame : Address) : Bytes :=
  let sourceLocation := parser.parse frame (0 < i)
  demangleBacktraceSymbol cxaDemangle (some (info.describe frame)) ++
    if sourceLocation.isEmpty then [] else ascii "at" ++ sourceLocation

def stackTexts : List Bytes := info.stack.mapIdx (frameText info parser cxaDemangle)

open Delimiter SymbolCode in
/-- Numbered lines, each with its newline. -/
def frameCode : SymbolCode (Nat × Bytes) Byte :=
  (((code (byte ' ')).of (decimalReading (2 ^ 31))).after (linePrefix ++ ascii "#")).seq (code (byte '\n'))

end

end Pans
