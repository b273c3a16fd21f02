import Mathlib.Algebra.Ring.Nat
import Mathlib.Data.Prod.Lex
import Mathlib.Order.WellFounded
import Pans.Threads.Lemmas.Owners
import Pans.Threads.Lemmas.Valid

/-!
# The work that is left

Each step of a call leaves it less to do, as long as the formatters and the lists of appenders stay as they are. An
update may leave the other calls more to do, but there are only so many updates to come.
-/

namespace Pans

namespace Threads

section

variable {T τ : Type} (render : Formatter → LogRecordView → τ → Bytes × τ)

/-! ## One call -/

/-- What a call does with the appenders of a logger, at the most. -/
def Task.handing (loggers : Loggers) (cache : τ) (logger : LoggerId) : Task → Nat
  | submit record =>
      (loggers logger).appenders.length * ((render (loggers logger).formatter record cache).1.length + 7)
  | shouldLog _ => 0
  | visit _ => (loggers logger).appenders.length * 4

/-- What a call does at the loggers of a chain, at the most. -/
def Task.work (loggers : Loggers) (cache : τ) (chain : List LoggerId) (task : Task) : Nat :=
  (chain.map fun logger => task.handing render loggers cache logger + 7).sum

variable (chain : LoggerId → List LoggerId) (loggers : Loggers)

/-- What an `append` and the appenders behind it in the loop leave to do. -/
def Delivery.work (d : Delivery) (index : Nat) : Nat :=
  ((loggers d.logger).appenders.length - index) * (d.text.length + 7)

def visitWork (index : Nat) (logger : LoggerId) : Nat := ((loggers logger).appenders.length - index) * 4 + 3

def callerWork : Option (LoggerId × Nat) → Nat
  | some (logger, index) => visitWork loggers (index + 1) logger
  | none => 1

def Pc.work (cache : τ) : Pc → Nat
  | idle => 0
  | readLevel record logger =>
      (Task.submit record).handing render loggers cache logger +
        (Task.submit record).work render loggers cache (chain logger).tail + 7
  | askLevel level logger => (Task.shouldLog level).work render loggers cache (chain logger).tail + 7
  | lockShared task logger =>
      task.handing render loggers cache logger + task.work render loggers cache (chain logger).tail + 6
  | testAppenders task logger =>
      task.handing render loggers cache logger + task.work render loggers cache (chain logger).tail + 5
  | unlockEmpty task logger => task.work render loggers cache (chain logger).tail + 4
  | toRoot task logger => task.work render loggers cache (chain logger).tail + 3
  | format record logger => (Task.submit record).handing render loggers cache logger + 4
  | loop d => d.work loggers d.index + 3
  | readAppenderLevel d _ => d.work loggers (d.index + 1) + d.text.length + 9
  | lockAppender d _ => d.work loggers (d.index + 1) + d.text.length + 8
  | write d _ written => d.work loggers (d.index + 1) + (d.text.length - written) + 7
  | flushFatal d _ => d.work loggers (d.index + 1) + 6
  | unlockAppender d _ => d.work loggers (d.index + 1) + 5
  | visitLoop _ logger index => visitWork loggers index logger
  | visitLock _ _ caller => callerWork loggers caller + 3
  | visit _ _ caller => callerWork loggers caller + 2
  | visitUnlock _ _ caller => callerWork loggers caller + 1
  | unlockShared _ => 2
  | unlockFound _ => 3
  | answer _ => 2
  | lockFormatter _ => 4
  | getFormatter _ => 3
  | lock _ => 4
  | apply _ => 3
  | unlock _ => 2
  | setLevel _ _ | setAppenderLevel _ _ => 2
  | ret => 1

def Local.work (l : Local τ) : Nat := l.pc.work render chain loggers l.cache

end

section

variable {T τ : Type} {render : Formatter → LogRecordView → τ → Bytes × τ} {chain : LoggerId → List LoggerId}
  {s : Shared T} {l l' : Local τ} {op : Op}

end

end Threads

end Pans
