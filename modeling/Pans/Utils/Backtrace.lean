import Pans.Basic

/-!
# `DemangleBacktraceSymbol`

A frame of `backtrace_symbols` is the path of a module with a mangled name in parentheses, an offset and an address.
-/

namespace Pans

/-- What goes to `__cxa_demangle`; `none` where the text is returned instead. -/
def mangledName (text : Bytes) : Option Bytes :=
  match find text (byte '(') 0 with
  | none => none
  | some nameBegin =>
      let mangledBegin := nameBegin + 1
      let nameEnd :=
        match find text (byte '+') mangledBegin with
        | none => find text (byte ')') mangledBegin
        | some plus => some plus
      match nameEnd with
      | none => none
      | some nameEnd =>
          if nameEnd = mangledBegin then none else some (substr text mangledBegin (nameEnd - mangledBegin))

/-- `__cxa_demangle` answers with a status and a pointer. A null symbol is `none`. -/
def demangleBacktraceSymbol (cxaDemangle : Bytes → Int × Option Bytes) (symbol : Option Bytes) : Bytes :=
  let text := symbol.getD []
  match mangledName text with
  | none => text
  | some mangledName =>
      let (status, demangledName) := cxaDemangle (cString mangledName)
      if status = 0 then demangledName.getD mangledName else mangledName

/-! ## Frames -/

def hexDigit (n : Nat) : Byte := UInt8.ofNat (if n < 10 then 48 + n else 87 + n)

def hexDigits (n : Nat) : Bytes := if n < 16 then [hexDigit n] else hexDigits (n / 16) ++ [hexDigit (n % 16)]

/-- `m(s+0xOFF) [0xADDR]`. -/
def offsetFrame (m s : Bytes) (offset address : Nat) : Bytes :=
  m ++ byte '(' :: (s ++ byte '+' :: (ascii "0x" ++ hexDigits offset ++ ascii ") [0x" ++ hexDigits address ++ ascii "]"))

/-- `m(s) [0xADDR]`. -/
def plainFrame (m s : Bytes) (address : Nat) : Bytes :=
  m ++ byte '(' :: (s ++ byte ')' :: (ascii " [0x" ++ hexDigits address ++ ascii "]"))

def IsIdentifierChar (b : Byte) : Prop :=
  (97 ≤ b.toNat ∧ b.toNat ≤ 122) ∨ (65 ≤ b.toNat ∧ b.toNat ≤ 90) ∨ (48 ≤ b.toNat ∧ b.toNat ≤ 57) ∨ b = byte '_'

/-- Nothing is picked out of an empty pair of parentheses. -/
def nonEmpty (s : Bytes) : Option Bytes := if s = [] then none else some s

/-- The first parenthesis is the one before the symbol, or what stands behind it is the same symbol with an offset. -/
def FirstWithOffset (m s : Bytes) : Prop :=
  byte '(' ∉ m ∨ ∃ before after, byte '(' ∉ before ∧ m = before ++ byte '(' :: (s ++ byte '+' :: after)

/-- The same for a frame without offset: the symbol behind the first parenthesis may end as well where the parenthesis
is closed, if no offset follows. -/
def FirstWithout (m s : Bytes) : Prop :=
  FirstWithOffset m s ∨
    ∃ before after, byte '(' ∉ before ∧ byte '+' ∉ after ∧ m = before ++ byte '(' :: (s ++ byte ')' :: after)

end Pans
