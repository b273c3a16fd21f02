import Pans.Basic

/-!
# Format items and their factories
-/

namespace Pans

/-- The derived classes of `Formatter::FormatItem`, with the members each one stores. -/
inductive FormatItem where
  | literal (value : Bytes)
  | level
  | elapsed
  | loggerName
  | threadId
  | newLine
  | dateTime (format : Bytes)
  | microseconds
  | fileName
  | line
  | tab
  | fiberId
  | threadName
  | message
  deriving DecidableEq, Repr

def FormatItem.isLiteral : FormatItem → Bool
  | .literal _ => true
  | _ => false

abbrev FormatItemFactory := Bytes → FormatItem

/-- The factory of a class without members: the format is dropped. -/
def createSimpleFormatItem (item : FormatItem) : FormatItemFactory := fun _ => item

def createConfiguredFormatItem (item : Bytes → FormatItem) : FormatItemFactory := fun format => item format

def getFormatItemFactories : List (Byte × FormatItemFactory) := [
  (byte 'm', createSimpleFormatItem .message),
  (byte 'p', createSimpleFormatItem .level),
  (byte 'r', createSimpleFormatItem .elapsed),
  (byte 'c', createSimpleFormatItem .loggerName),
  (byte 't', createSimpleFormatItem .threadId),
  (byte 'n', createSimpleFormatItem .newLine),
  (byte 'd', createConfiguredFormatItem .dateTime),
  (byte 'u', createSimpleFormatItem .microseconds),
  (byte 'f', createSimpleFormatItem .fileName),
  (byte 'l', createSimpleFormatItem .line),
  (byte 'T', createSimpleFormatItem .tab),
  (byte 'F', createSimpleFormatItem .fiberId),
  (byte 'N', createSimpleFormatItem .threadName)]

/-- `CreateFormatItem`. The null pointer of an unknown directive is `none`. -/
def createFormatItem (directive : Byte) (format : Bytes) : Option FormatItem :=
  (getFormatItemFactories.lookup directive).map fun factory => factory format

end Pans
