import Pans.Threads.Machine

/-!
# What a run has done

The records of a history: the operations of each call, and the texts that each appender has been given.
-/

namespace Pans

namespace Threads

namespace Op

/-- The appenders that a record meets, if there are any. -/
def found? : Op → Option (LoggerId × List AppenderId)
  | test (.submit _) logger (appender :: appenders) => some (logger, appender :: appenders)
  | _ => none

def rendering? : Op → Option Rendering
  | format x => some x
  | _ => none

def check? : Op → Option Check
  | check c => some c
  | _ => none

def copy? : Op → Option Copy
  | appended c => some c
  | _ => none

end Op

/-! ## One call -/

section

variable {T : Type} [DecidableEq T]

def trace (t : T) (call : Nat) : List (T × Event) → List Op
  | [] => []
  | (u, e) :: history => trace t call history ++ if u = t ∧ e.call = call then [e.op] else []

end

def found (ops : List Op) : List (LoggerId × List AppenderId) := ops.filterMap Op.found?

def renderings (ops : List Op) : List Rendering := ops.filterMap Op.rendering?

def checks (ops : List Op) : List Check := ops.filterMap Op.check?

def copies (ops : List Op) : List Copy := ops.filterMap Op.copy?

/-- The copies that a text owes to the checks it has passed. -/
def owed (text : Bytes) (cs : List Check) : List Copy :=
  (cs.filter (·.passed)).map fun c => ⟨c.logger, c.appender, text⟩

/-- The record met one list of appenders, was formatted once and handed to some of them: one copy for each that
let it pass, the last of which may be pending. -/
structure Handed (ops : List Op) (x : Rendering) (appenders : List AppenderId) (pending : List Copy) : Prop where
  found : found ops = [(x.logger, x.appenders)]
  renderings : renderings ops = [x]
  checks : (checks ops).map (fun c => (c.logger, c.appender)) = appenders.map (x.logger, ·)
  copies : copies ops ++ pending = owed x.text (Threads.checks ops)

/-- Nothing has been formatted, and nothing was handed to an appender. -/
structure Untouched (ops : List Op) (met : List (LoggerId × List AppenderId)) : Prop where
  found : found ops = met
  renderings : renderings ops = []
  checks : checks ops = []
  copies : copies ops = []

/-- A call meets no appenders and delivers nothing, or delivers one record to every appender of the list it meets. -/
def Complete (ops : List Op) : Prop :=
  Untouched ops [] ∨ ∃ x, Handed ops x x.appenders []

/-- A call that may not have come to its end. -/
def Started (ops : List Op) : Prop :=
  (∃ met, Untouched ops met) ∨
    ∃ x appenders pending, appenders <+: x.appenders ∧ pending.length ≤ 1 ∧ Handed ops x appenders pending

/-- The record is the one that was submitted, and the text is what the formatter makes of it. -/
structure Genuine {τ : Type} (render : Formatter → LogRecordView → τ → Bytes × τ) (ops : List Op) (x : Rendering) :
    Prop where
  submitted : ∃ logger, .call (.route (.submit x.record) logger) ∈ ops
  text : ∃ cache, x.text = (render x.formatter x.record cache).1

/-- An update that was called has been made. -/
def Configured (ops : List Op) : Prop := ∀ c, .call (.configure c) ∈ ops → .apply c ∈ ops

/-! ## All calls -/

structure Entry (T : Type) where
  thread : T
  call : Nat
  copy : Copy

section

variable {T : Type}

def Op.copyOn (appender : AppenderId) (op : Op) : List Copy := op.copy?.toList.filter (·.appender = appender)

def entries (appender : AppenderId) : List (T × Event) → List (Entry T)
  | [] => []
  | (t, e) :: history => entries appender history ++ (e.op.copyOn appender).map (⟨t, e.call, ·⟩)

/-- What a stream holds after entire records only. -/
def recordsText (es : List (Entry T)) : Bytes := (es.map (·.copy.text)).flatten

end

/-- The appender that a thread in `append` has locked. -/
def Pc.appendsTo : Pc → Option AppenderId
  | .write _ appender _ | .flushFatal _ appender | .unlockAppender _ appender => some appender
  | _ => none

end Threads

end Pans
