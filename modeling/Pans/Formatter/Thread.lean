import Pans.Formatter.Text

/-!
# The date items of one thread

All the date items that a thread runs share its cache. A run is a sequence of date items, or of formatters, on
records in any order. The records that a failed assertion logs are items of the sequence as well: the failing
item writes nothing after them.
-/

namespace Pans

section

variable {Tm σ : Type} (libc : Libc Tm)

/-- A failed assertion that returns. It does not touch the cache itself. -/
def logging (log : AssertFailure → σ → σ) : AssertHandler σ :=
  fun failure st => some { st with rest := log failure st.rest }

/-! ## One date format -/

/-- What a conversion from scratch appends. -/
def Libc.convert (format : Bytes) (second : Int) : Bytes := (libc.dateText format second).getD []

/-- Date items with one format, on records and the bytes that each buffer holds already. -/
def formatDates (onAssert : AssertHandler σ) (format : Bytes) :
    List (LogRecordView × Bytes) → ThreadState σ → Option (ThreadState σ × List Bytes)
  | [], st => some (st, [])
  | (record, output) :: items, st =>
      (formatDateTime libc onAssert format record st output).bind fun p =>
        (formatDates onAssert format items p.1).map fun q => (q.1, p.2 :: q.2)

/-- `strftime` is reached and fails. -/
def Libc.Overwrites (format : Bytes) (second : Int) : Prop :=
  (libc.localtime_r second).isSome ∧ libc.dateText format second = none

/-! A history has its latest second in front. -/

/-- The second that was converted last, if any. -/
def latestConverted (format : Bytes) (history : List Int) : Option Int :=
  history.find? fun second => (libc.dateText format second).isSome

/-- Since the last conversion, a failed one has overwritten the array. -/
def Spoiled (format : Bytes) (history : List Int) : Prop :=
  ∃ second ∈ history.takeWhile (fun second => (libc.dateText format second).isNone),
    libc.Overwrites format second ∧ second ≠ (latestConverted libc format history).getD 0

/-- The cache stands for this second, and the array is not its text: it was overwritten, or nothing was ever
converted and the second is the 0 of the initial cache. -/
def Stale (format : Bytes) (history : List Int) (second : Int) : Prop :=
  second = (latestConverted libc format history).getD 0 ∧
    (Spoiled libc format history ∨
      latestConverted libc format history = none ∧ (libc.dateText format second).isSome)

/-! ## Several formatters -/

/-- One record on a thread, for the formatter under study or for another one. -/
inductive Turn where
  | own (record : LogRecordView)
  | other (G : Formatter) (record : LogRecordView)

def Turn.formatter (F : Formatter) : Turn → Formatter
  | .own _ => F
  | .other G _ => G

def Turn.record : Turn → LogRecordView
  | .own record => record
  | .other _ record => record

def ownRecords (turns : List Turn) : List LogRecordView :=
  turns.filterMap fun
    | .own record => some record
    | .other _ _ => none

/-- All date items carry the format, and the second has a text under it. -/
def Carries (format : Bytes) (items : List FormatItem) (second : Int) : Prop :=
  ∀ f, .dateTime f ∈ items → f = format ∧ (libc.dateText f second).isSome

/-- What the items write when each date item converts its second from scratch. -/
def Libc.render (items : List FormatItem) (record : LogRecordView) : Bytes :=
  items.flatMap (FormatItem.text (fun format => libc.convert format record.currentSecond) record)

/-- The outputs of `F` among the turns. Each record has a buffer of its own. -/
def Formatter.formatTurns (F : Formatter) (onAssert : AssertHandler σ) :
    List Turn → ThreadState σ → Option (ThreadState σ × List Bytes)
  | [], st => some (st, [])
  | .own record :: turns, st =>
      (F.format libc onAssert record st []).bind fun p =>
        (formatTurns F onAssert turns p.1).map fun q => (q.1, p.2 :: q.2)
  | .other G record :: turns, st =>
      (G.format libc onAssert record st []).bind fun p => formatTurns F onAssert turns p.1

end

end Pans
