import Pans.Logger.File
import Pans.Threads.Trace

/-!
# The files of appenders

The threads of `Machine.lean`, together with the streams that their appenders write to. A stream hands bytes over
when a thread flushes it, and whenever stdio likes; an appender is destroyed when nothing refers to it any more.
-/

namespace Pans

namespace Threads

/-! ## What a step does to a file -/

/-- The protected member that a step of a thread calls, with the appender whose lock the thread holds. -/
def Pc.member : Pc → Op → Option (AppenderId × Appender.Member)
  | .write _ appender _, .write _ _ byte => some (appender, .writeUnlocked [byte])
  | .flushFatal _ appender, _ => some (appender, .flushUnlocked)
  | .visit .flush appender _, _ => some (appender, .flushUnlocked)
  | .visit .sync appender _, _ => some (appender, .syncUnlocked)
  | _, _ => none

abbrev Files := AppenderId → File

def Files.update (files : Files) (appender : AppenderId) (f : File → File) : Files :=
  Function.update files appender (f (files appender))

def Files.run (kind : AppenderId → Appender.Kind) (files : Files) : Option (AppenderId × Appender.Member) → Files
  | some (appender, member) => files.update appender ((kind appender).run member)
  | none => files

/-! ## References -/

/-- The appender to which a thread has a pointer, other than through the list of a logger. -/
def Pc.pointer? : Pc → Option AppenderId
  | .readAppenderLevel _ a | .lockAppender _ a | .write _ a _ | .flushFatal _ a | .unlockAppender _ a => some a
  | .visitLock _ a _ | .visit _ a _ | .visitUnlock _ a _ | .setAppenderLevel a _ => some a
  | .lock (.addAppender _ a) | .apply (.addAppender _ a) | .unlock (.addAppender _ a) => some a
  | .lock (.removeAppender _ a) | .apply (.removeAppender _ a) | .unlock (.removeAppender _ a) => some a
  | _ => none

structure Unreferenced {T τ : Type} (s : Process T τ) (appender : AppenderId) : Prop where
  loggers : ∀ logger, appender ∉ (s.shared.loggers logger).appenders
  threads : ∀ t, (s.threads t).pc.pointer? ≠ some appender

/-! ## Steps -/

structure System (T τ : Type) where
  process : Process T τ
  files : Files
  destroyed : List AppenderId

/-- `spill` hands over some of the buffer of a stream. -/
inductive Label (T : Type) where
  | thread (t : T) (e : Event)
  | spill (appender : AppenderId) (n : Nat)
  | destroy (appender : AppenderId)
  deriving DecidableEq

def Label.event? {T : Type} : Label T → Option (T × Event)
  | thread t e => some (t, e)
  | _ => none

def Op.call? : Op → Option Call
  | call c => some c
  | _ => none

def events {T : Type} (history : List (Label T)) : List (T × Event) := history.filterMap Label.event?

namespace System

variable {T τ : Type}

def afterThread (kind : AppenderId → Appender.Kind) (s : System T τ) (t : T) (e : Event) (process : Process T τ) :
    System T τ where
  process := process
  files := s.files.run kind ((s.process.threads t).pc.member e.op)
  destroyed := s.destroyed

def afterSpill (s : System T τ) (appender : AppenderId) (n : Nat) : System T τ :=
  { s with files := s.files.update appender (·.spill n) }

def afterDestroy (kind : AppenderId → Appender.Kind) (s : System T τ) (appender : AppenderId) : System T τ :=
  { s with files := s.files.update appender (kind appender).destroy, destroyed := appender :: s.destroyed }

@[simp] theorem afterThread_files (kind : AppenderId → Appender.Kind) (s : System T τ) (t : T) (e : Event)
    (process : Process T τ) :
    (s.afterThread kind t e process).files = s.files.run kind ((s.process.threads t).pc.member e.op) := rfl

@[simp] theorem afterSpill_files (s : System T τ) (appender : AppenderId) (n : Nat) :
    (s.afterSpill appender n).files = s.files.update appender (·.spill n) := rfl

@[simp] theorem afterDestroy_files (kind : AppenderId → Appender.Kind) (s : System T τ) (appender : AppenderId) :
    (s.afterDestroy kind appender).files = s.files.update appender (kind appender).destroy := rfl

/-- Nobody calls with a pointer to an appender that has been destroyed. -/
def Admits (s : System T τ) (e : Event) : Prop :=
  ∀ call ∈ e.op.call?, ∀ appender ∈ s.destroyed, call.enter.pointer? ≠ some appender

instance (s : System T τ) (e : Event) : Decidable (s.Admits e) := inferInstanceAs (Decidable (∀ _ ∈ _, _))

inductive Step [DecidableEq T] (kind : AppenderId → Appender.Kind)
    (render : Formatter → LogRecordView → τ → Bytes × τ) : System T τ → Label T → System T τ → Prop where
  | thread {s t e process} : Threads.Step render s.process (t, e) process → s.Admits e →
      Step kind render s (.thread t e) (s.afterThread kind t e process)
  | spill {s} (appender : AppenderId) (n : Nat) : Step kind render s (.spill appender n) (s.afterSpill appender n)
  | destroy {s appender} : appender ∉ s.destroyed → Unreferenced s.process appender →
      Step kind render s (.destroy appender) (s.afterDestroy kind appender)

structure Init (s : System T τ) : Prop where
  process : Threads.Init s.process
  files : ∀ appender, s.files appender = .empty
  destroyed : s.destroyed = []

/-! ## The step as a function -/

/-- What the system is told to do; the call is for a thread that is in no call. -/
inductive Turn (T : Type) where
  | thread (t : T) (call : Call)
  | spill (appender : AppenderId) (n : Nat)

variable [DecidableEq T] {kind : AppenderId → Appender.Kind} {render : Formatter → LogRecordView → τ → Bytes × τ}

/-- `Step` as a function, but for the destruction of appenders. -/
def move (kind : AppenderId → Appender.Kind) (render : Formatter → LogRecordView → τ → Bytes × τ) (s : System T τ) :
    Turn T → Option (Label T × System T τ)
  | .thread t call =>
      (Interleaving.advance (Threads.move render) s.process t call).bind fun ((u, e), process) =>
        if s.Admits e then some (.thread u e, s.afterThread kind u e process) else none
  | .spill appender n => some (.spill appender n, s.afterSpill appender n)

theorem step_of_move {s s' : System T τ} {turn : Turn T} {label : Label T}
    (h : move kind render s turn = some (label, s')) : Step kind render s label s' := by
  cases turn with
  | spill appender n =>
      cases h
      exact .spill appender n
  | thread t call =>
      obtain ⟨⟨⟨u, e⟩, process⟩, hadvance, hthread⟩ := Option.bind_eq_some_iff.mp h
      dsimp only at hthread
      split at hthread <;> cases hthread
      rename_i hadmits
      refine .thread (Interleaving.step_of_advance ?_ hadvance) hadmits
      intro t s l call e s' l' hmove
      exact move_iff.mpr ⟨call, hmove⟩

end System

end Threads

end Pans
