import Mathlib.Data.List.Chain
import Pans.Formatter.Item

/-!
# The pattern grammar

What a pattern is, without the parser: a sequence of tokens, and the item list that the tokens denote.
-/

namespace Pans

/-- `directive c f` is `%c{f}`, or the bare `%c` when `f` is empty. -/
inductive Token where
  | char (c : Byte)
  | percent
  | directive (c : Byte) (format : Bytes)
  deriving DecidableEq, Repr

/-- The text reads as the tokens. The letters of the directives are not checked here. -/
inductive Lexes : Bytes → List Token → Prop where
  | nil : Lexes [] []
  | char {c p ts} : c ≠ byte '%' → Lexes p ts → Lexes (c :: p) (.char c :: ts)
  | percent {p ts} : Lexes p ts → Lexes (byte '%' :: byte '%' :: p) (.percent :: ts)
  | bare {c p ts} : c ≠ byte '%' → p.head? ≠ some (byte '{') → Lexes p ts →
      Lexes (byte '%' :: c :: p) (.directive c [] :: ts)
  | braced {c f p ts} : c ≠ byte '%' → f ≠ [] → byte '}' ∉ f → Lexes p ts →
      Lexes (byte '%' :: c :: byte '{' :: (f ++ byte '}' :: p)) (.directive c f :: ts)

def directives : Bytes := ascii "mprctnduflTFN"

/-- `p` is a well-formed pattern with the tokens `ts`. -/
def IsPattern (p : Bytes) (ts : List Token) : Prop :=
  Lexes p ts ∧ ∀ c f, .directive c f ∈ ts → c ∈ directives

/-- The item that a directive writes. The date keeps the format in the braces, the other items have no use for it. -/
def directiveItem (c : Byte) (format : Bytes) : Option FormatItem :=
  if c = byte 'm' then some .message
  else if c = byte 'p' then some .level
  else if c = byte 'r' then some .elapsed
  else if c = byte 'c' then some .loggerName
  else if c = byte 't' then some .threadId
  else if c = byte 'n' then some .newLine
  else if c = byte 'd' then some (.dateTime format)
  else if c = byte 'u' then some .microseconds
  else if c = byte 'f' then some .fileName
  else if c = byte 'l' then some .line
  else if c = byte 'T' then some .tab
  else if c = byte 'F' then some .fiberId
  else if c = byte 'N' then some .threadName
  else none

/-- Puts literal text in front of an item list. It joins the literal item that already stands there. -/
def prependLiteral (text : Bytes) : List (Option FormatItem) → List (Option FormatItem)
  | some (.literal s) :: items => some (.literal (text ++ s)) :: items
  | items => if text.isEmpty then items else some (.literal text) :: items

/-- The items that tokens denote: the item of each directive, and one literal for each run of characters and `%%`. -/
def denote : List Token → List (Option FormatItem)
  | [] => []
  | .char c :: ts => prependLiteral [c] (denote ts)
  | .percent :: ts => prependLiteral [byte '%'] (denote ts)
  | .directive c f :: ts => directiveItem c f :: denote ts

/-- The last token of the pattern is a bare directive. -/
def EndsBare (p : Bytes) : Prop := ∃ ts c, Lexes p (ts ++ [.directive c []])

/-- One item list behind another. Two literals that meet at the seam become one. -/
def joinItems : List FormatItem → List FormatItem → List FormatItem
  | [], items => items
  | [.literal a], .literal b :: items => .literal (a ++ b) :: items
  | item :: rest, items => item :: joinItems rest items

/-- Every `%` doubled. -/
def escape (text : Bytes) : Bytes := text.flatMap fun c => if c = byte '%' then [byte '%', byte '%'] else [c]

/-- No literal is empty, and no two literals stand side by side. -/
def MergedLiterals (items : List FormatItem) : Prop :=
  .literal [] ∉ items ∧ items.IsChain fun a b => ¬(a.isLiteral ∧ b.isLiteral)

end Pans
