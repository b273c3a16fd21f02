import Pans.Formatter.Thread
import Pans.Logger.DefaultLine
import Pans.Threads.Trace

/-!
# Threads with the default formatter

The threads of `Machine.lean`, which format on a date cache of their own.
-/

namespace Pans

namespace Threads

section

variable {Tm : Type} (libc : Libc Tm)

/-- Nothing is written where an assertion fails. -/
def renderCached (F : Formatter) (record : LogRecordView) (cache : DateCache) : Bytes × DateCache :=
  match F.format libc (fun _ _ => none) record ⟨cache, ()⟩ [] with
  | some (st, output) => (output, st.cache)
  | none => ([], cache)

/-- Every logger has the formatter that it was created with, and no thread has formatted anything. -/
structure InitDefault {T : Type} (s : Process T DateCache) : Prop extends Init s where
  formatter : ∀ logger, (s.shared.loggers logger).formatter = defaultFormatter
  cache : ∀ t, (s.threads t).cache = .initial

/-- The record can be shown, and its line can be told from the next one. -/
structure Readable (record : LogRecordView) : Prop where
  date : (libc.dateText defaultDateFormat record.currentSecond).isSome
  second : record.currentSecond ≠ 0
  plain : (record.shown libc).Plain

instance (record : LogRecordView) : Decidable (Readable libc record) :=
  decidable_of_iff ((libc.dateText defaultDateFormat record.currentSecond).isSome ∧ record.currentSecond ≠ 0 ∧
    (record.shown libc).Plain) ⟨fun h => ⟨h.1, h.2.1, h.2.2⟩, fun h => ⟨h.date, h.second, h.plain⟩⟩

def Op.submitted? : Op → Option LogRecordView
  | call (.route (.submit record) _) => some record
  | _ => none

def Op.formatter? : Op → Option Formatter
  | apply (.setFormatter _ formatter) => some formatter
  | _ => none

structure Op.Ordinary (op : Op) : Prop where
  submitted : ∀ record ∈ op.submitted?, Readable libc record
  formatter : ∀ formatter ∈ op.formatter?, formatter = defaultFormatter

instance (op : Op) : Decidable (op.Ordinary libc) :=
  decidable_of_iff ((∀ record ∈ op.submitted?, Readable libc record) ∧
    ∀ formatter ∈ op.formatter?, formatter = defaultFormatter) ⟨fun h => ⟨h.1, h.2⟩, fun h => ⟨h.1, h.2⟩⟩

end

end Threads

end Pans
