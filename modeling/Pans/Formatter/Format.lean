import Pans.Formatter.Parse
import Pans.Logger.Record

/-!
# `Formatter::format`

The items write a record into a buffer, which holds a byte string. The date item keeps the text of the last
second in variables of the thread. A failed assertion hands over to `onAssert`, the FATAL record that the macro
logs, and the item returns without writing.
-/

namespace Pans

/-! ## The C library -/

/-- `localtime_r` and `strftime`. `expand` is the text that a format stands for at a broken-down time, `scratch`
what a call leaves in the array when it returns 0, which is unspecified. -/
structure Libc (Tm : Type) where
  localtime_r : Int → Option Tm
  expand : Bytes → Tm → Bytes
  scratch : Nat → Bytes → Tm → Bytes → Bytes
  expand_nil : ∀ tm, expand [] tm = []
  expand_no_nul : ∀ format tm, 0 ∉ expand format tm

/-- `std::strftime`, with the array before and after the call. -/
def Libc.strftime {Tm : Type} (libc : Libc Tm) (array : Bytes) (maxsize : Nat) (format : Bytes) (tm : Tm) :
    Nat × Bytes :=
  let text := libc.expand format tm
  if 0 < text.length ∧ text.length < maxsize then (text.length, text ++ 0 :: array.drop (text.length + 1))
  else (0, libc.scratch maxsize format tm array)

/-! ## Decimal numerals -/

def digit (n : Nat) : Byte := UInt8.ofNat (48 + n)

def decimalDigits (n : Nat) : Bytes :=
  if n < 10 then [digit n] else decimalDigits (n / 10) ++ [digit (n % 10)]

def numeral (value : Int) : Bytes :=
  if value < 0 then byte '-' :: decimalDigits value.natAbs else decimalDigits value.natAbs

/-- `std::to_chars` into an array of `size` bytes; it fails when the numeral is too long. -/
def toChars (size : Nat) (value : Int) : Option Bytes :=
  if (numeral value).length ≤ size then some (numeral value) else none

/-! ## State and assertions -/

/-- The `static thread_local` variables of the date item. -/
structure DateCache where
  lastSecond : Int
  cachedDateTime : Bytes
  deriving DecidableEq, Repr

def DateCache.initial : DateCache := ⟨0, List.replicate 20 0⟩

/-- The thread: its date cache, and what the logging of failed assertions works on. -/
structure ThreadState (σ : Type) where
  cache : DateCache
  rest : σ
  deriving DecidableEq, Repr

structure AssertFailure where
  condition : Bytes
  info : Bytes
  deriving DecidableEq, Repr

/-- A handler that yields `none` does not come back. -/
abbrev AssertHandler (σ : Type) := AssertFailure → ThreadState σ → Option (ThreadState σ)

/-! ## The items -/

section Items

variable {Tm σ : Type} (libc : Libc Tm) (onAssert : AssertHandler σ)

/-- `ASSERT_RETNONE2` on a condition that does not hold. -/
def assertRetNone (failure : AssertFailure) (st : ThreadState σ) (output : Bytes) :
    Option (ThreadState σ × Bytes) :=
  (onAssert failure st).map fun st => (st, output)

def appendInteger (value : Int) (st : ThreadState σ) (output : Bytes) : Option (ThreadState σ × Bytes) :=
  match toChars 24 value with
  | some text => some (st, output ++ text)
  | none => assertRetNone onAssert
      ⟨ascii "result.ec == std::errc()", ascii "trans " ++ numeral value ++ ascii "to chars failed"⟩ st output

/-- The record's time in whole seconds, as `duration_cast` rounds it. -/
def LogRecordView.currentSecond (record : LogRecordView) : Int := record.timestamp.toInt.tdiv 1000000000

def formatDateTime (format : Bytes) (record : LogRecordView) (st : ThreadState σ) (output : Bytes) :
    Option (ThreadState σ × Bytes) :=
  if record.currentSecond ≠ st.cache.lastSecond then
    match libc.localtime_r record.currentSecond with
    | none => assertRetNone onAssert
        ⟨ascii "result != nullptr", ascii "failed to convert log time to local time"⟩ st output
    | some tm =>
        let result := libc.strftime st.cache.cachedDateTime 20 (cString format) tm
        let st := { st with cache := { st.cache with cachedDateTime := result.2 } }
        if result.1 ≠ 0 then
          let st := { st with cache := { st.cache with lastSecond := record.currentSecond } }
          some (st, output ++ cString st.cache.cachedDateTime)
        else assertRetNone onAssert ⟨ascii "size != 0", ascii "failed to format log time"⟩ st output
  else some (st, output ++ cString st.cache.cachedDateTime)

/-- The loop of `MicrosecondsFormatItem::format`, which fills the digits from the last one. -/
def digitsLoop : (index : Nat) → (remaining : UInt32) → (digits : Bytes) → Bytes
  | 0, _, digits => digits
  | index + 1, remaining, digits => digitsLoop index (remaining / 10) (digit (remaining % 10).toNat :: digits)

def microsecondDigits (record : LogRecordView) : Bytes :=
  let totalMicroseconds := record.timestamp.toInt.tdiv 1000
  let microseconds := totalMicroseconds.tmod 1000000
  let microseconds := if microseconds < 0 then microseconds + 1000000 else microseconds
  digitsLoop 6 (UInt32.ofNat microseconds.toNat) []

def FormatItem.format (record : LogRecordView) (st : ThreadState σ) (output : Bytes) :
    FormatItem → Option (ThreadState σ × Bytes)
  | .literal value => some (st, output ++ value)
  | .level => some (st, output ++ record.level.toString)
  | .elapsed => appendInteger onAssert (record.elapsed.toInt.tdiv 1000000) st output
  | .loggerName => some (st, output ++ record.loggerName)
  | .threadId => appendInteger onAssert record.threadId.toNat st output
  | .newLine => some (st, output ++ [byte '\n'])
  | .dateTime format => formatDateTime libc onAssert format record st output
  | .microseconds => some (st, output ++ microsecondDigits record)
  | .fileName => some (st, output ++ record.fileName)
  | .line => appendInteger onAssert record.line.toNat st output
  | .tab => some (st, output ++ [byte '\t'])
  | .fiberId => appendInteger onAssert record.fiberId.toNat st output
  | .threadName => some (st, output ++ record.threadName)
  | .message => some (st, output ++ record.message)

def formatItems (record : LogRecordView) : List FormatItem → ThreadState σ → Bytes → Option (ThreadState σ × Bytes)
  | [], st, output => some (st, output)
  | item :: items, st, output =>
      (item.format libc onAssert record st output).bind fun p => formatItems record items p.1 p.2

def Formatter.format (F : Formatter) (record : LogRecordView) (st : ThreadState σ) (output : Bytes) :
    Option (ThreadState σ × Bytes) :=
  formatItems libc onAssert record F.items st output

end Items

end Pans
