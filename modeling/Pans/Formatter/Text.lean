import Pans.Formatter.Format

/-!
# The text of an item

What each item stands for in the output, apart from the code that writes it.
-/

namespace Pans

variable {Tm : Type}

/-- The text of a date format at a second, when there is one that the 20-byte array can hold. -/
def Libc.dateText (libc : Libc Tm) (format : Bytes) (second : Int) : Option Bytes :=
  match libc.localtime_r second with
  | none => none
  | some tm =>
      let text := libc.expand (cString format) tm
      if 0 < text.length ∧ text.length < 20 then some text else none

namespace FormatItem

def integer (record : LogRecordView) : FormatItem → Option Int
  | .elapsed => some (record.elapsed.toInt.tdiv 1000000)
  | .threadId => some record.threadId.toNat
  | .fiberId => some record.fiberId.toNat
  | .line => some record.line.toNat
  | _ => none

def dateFormat : FormatItem → Option Bytes
  | .dateTime format => some format
  | _ => none

def text (date : Bytes → Bytes) (record : LogRecordView) : FormatItem → Bytes
  | .literal value => value
  | .level => record.level.toString
  | .elapsed => numeral (record.elapsed.toInt.tdiv 1000000)
  | .loggerName => record.loggerName
  | .threadId => numeral record.threadId.toNat
  | .newLine => [byte '\n']
  | .dateTime format => date format
  | .microseconds => microsecondDigits record
  | .fileName => record.fileName
  | .line => numeral record.line.toNat
  | .tab => [byte '\t']
  | .fiberId => numeral record.fiberId.toNat
  | .threadName => record.threadName
  | .message => record.message

end FormatItem

def firstDateFormat (items : List FormatItem) : Option Bytes := items.findSome? FormatItem.dateFormat

/-- The cache is not stale: if it stands for the second, it holds the text. -/
def DateCache.Agrees (cache : DateCache) (second : Int) (text : Bytes) : Prop :=
  cache.lastSecond = second → cString cache.cachedDateTime = text

end Pans
