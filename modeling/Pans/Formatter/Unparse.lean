import Pans.Formatter.Grammar

/-!
# Writing a pattern for an item list

The shortest pattern that `parse` reads as the items.
-/

namespace Pans

/-- The directive of an item. A literal has none; the byte that stands for it here is no directive. -/
def FormatItem.directive : FormatItem → Byte
  | .literal _ => byte '%'
  | .message => byte 'm'
  | .level => byte 'p'
  | .elapsed => byte 'r'
  | .loggerName => byte 'c'
  | .threadId => byte 't'
  | .newLine => byte 'n'
  | .dateTime _ => byte 'd'
  | .microseconds => byte 'u'
  | .fileName => byte 'f'
  | .line => byte 'l'
  | .tab => byte 'T'
  | .fiberId => byte 'F'
  | .threadName => byte 'N'

/-- The format of the written directive. Only the date keeps its format; any other item drops it, so one is put in to
part the directive from a brace that follows. -/
def FormatItem.writtenFormat (rest : Bytes) : FormatItem → Bytes
  | .dateTime format => format
  | _ => if rest.head? = some (byte '{') then [byte '_'] else []

def writeDirective (directive : Byte) (format rest : Bytes) : Bytes :=
  byte '%' :: directive :: (if format = [] then rest else byte '{' :: (format ++ byte '}' :: rest))

def unparse : List FormatItem → Bytes
  | [] => []
  | .literal text :: items => escape text ++ unparse items
  | item :: items => writeDirective item.directive (item.writtenFormat (unparse items)) (unparse items)

/-- What item lists of patterns look like: the literals are merged, no date format holds the brace that would close it,
and no bare date stands before an open brace. -/
def Writable (items : List FormatItem) : Prop :=
  MergedLiterals items ∧ (∀ format, .dateTime format ∈ items → byte '}' ∉ format) ∧
    items.IsChain fun a b => ¬(a = .dateTime [] ∧ ∃ text, b = .literal (byte '{' :: text))

end Pans
