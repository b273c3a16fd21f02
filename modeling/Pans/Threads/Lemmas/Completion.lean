import Pans.Threads.Lemmas.Calls
import Pans.Threads.Lemmas.Work

/-!
# Calls come to their end

A thread in a call can go on, or waits for a thread that is further on; and it cannot go on for ever.
-/

namespace Pans

namespace Threads

/-! ## No deadlock -/

/-- How far on a thread is: it has taken the lock of an appender, or that of a logger, or none. -/
def Held.rank (h : Held) : Nat := if h.appender.isSome then 2 else if h.shared.isSome || h.exclusive.isSome then 1 else 0

section

variable {T τ : Type} {render : Formatter → LogRecordView → τ → Bytes × τ} {history : List (T × Event)}
  {s s' : Process T τ} {t u : T} {op : Op} {l' : Local τ}

variable [DecidableEq T]

variable [Fintype T]

end

end Threads

end Pans
