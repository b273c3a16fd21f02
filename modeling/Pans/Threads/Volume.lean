import Pans.Lib.Merge
import Pans.Threads.Files

/-!
# Appenders that share a file

Every file appender opens its file anew, for appending: what it hands over goes to the end of the file, whoever has
written there before. `fdatasync` puts on the disk all that the file contains.
-/

namespace Pans

def Appender.Member.syncs : Appender.Member → Bool
  | .syncUnlocked => true
  | _ => false

namespace Threads

/-- The files that the appenders were made for. Those without one write to `std::cout`. -/
abbrev FileNames := AppenderId → Option Bytes

def FileNames.kind (names : FileNames) (appender : AppenderId) : Appender.Kind :=
  if (names appender).isSome then .file else .stdout

section

variable {T τ : Type}

/-- The appender on whose stream a step works. -/
def System.appender? (s : System T τ) : Label T → Option AppenderId
  | .thread t e => ((s.process.threads t).pc.member e.op).map (·.1)
  | .spill appender _ => some appender
  | .destroy appender => some appender

/-- The file that a step syncs. -/
def System.syncs? (names : FileNames) (s : System T τ) : Label T → Option Bytes
  | .thread t e => ((s.process.threads t).pc.member e.op).bind fun p => if p.2.syncs then names p.1 else none
  | _ => none

/-- What the named files contain, and what of that is on the disk. -/
structure Volume (T τ : Type) where
  system : System T τ
  content : Bytes → Bytes
  durable : Bytes → Bytes

namespace Volume

def handedOver (v : Volume T τ) (system : System T τ) (appender : AppenderId) : Bytes :=
  (system.files appender).handed.drop (v.system.files appender).handed.length

/-- The file to which a step appends, and what. -/
def appends? (names : FileNames) (v : Volume T τ) (label : Label T) (system : System T τ) : Option (Bytes × Bytes) :=
  (v.system.appender? label).bind fun appender => (names appender).map fun file => (file, v.handedOver system appender)

def appendTo (content : Bytes → Bytes) : Option (Bytes × Bytes) → Bytes → Bytes
  | some (file, bytes) => Function.update content file (content file ++ bytes)
  | none => content

def syncTo (content durable : Bytes → Bytes) : Option Bytes → Bytes → Bytes
  | some file => Function.update durable file (content file)
  | none => durable

def after (names : FileNames) (v : Volume T τ) (label : Label T) (system : System T τ) : Volume T τ where
  system := system
  content := appendTo v.content (v.appends? names label system)
  durable := syncTo (appendTo v.content (v.appends? names label system)) v.durable (v.system.syncs? names label)

@[simp] theorem after_system (names : FileNames) (v : Volume T τ) (label : Label T) (system : System T τ) :
    (v.after names label system).system = system := rfl

@[simp] theorem after_content (names : FileNames) (v : Volume T τ) (label : Label T) (system : System T τ) :
    (v.after names label system).content = appendTo v.content (v.appends? names label system) := rfl

@[simp] theorem after_durable (names : FileNames) (v : Volume T τ) (label : Label T) (system : System T τ) :
    (v.after names label system).durable =
      syncTo (v.after names label system).content v.durable (v.system.syncs? names label) := rfl

inductive Step [DecidableEq T] (names : FileNames) (render : Formatter → LogRecordView → τ → Bytes × τ) :
    Volume T τ → Label T → Volume T τ → Prop where
  | step {v label system} : System.Step names.kind render v.system label system →
      Step names render v label (v.after names label system)

/-- `Step` as a function, as far as `System.move` is. -/
def move [DecidableEq T] (names : FileNames) (render : Formatter → LogRecordView → τ → Bytes × τ) (v : Volume T τ)
    (turn : System.Turn T) : Option (Label T × Volume T τ) :=
  (System.move names.kind render v.system turn).map fun p => (p.1, v.after names p.1 p.2)

theorem step_of_move [DecidableEq T] {names : FileNames} {render : Formatter → LogRecordView → τ → Bytes × τ}
    {v v' : Volume T τ} {turn : System.Turn T} {label : Label T}
    (h : move names render v turn = some (label, v')) : Step names render v label v' := by
  obtain ⟨⟨label, system⟩, hmove, heq⟩ := Option.map_eq_some_iff.mp h
  cases heq
  exact .step (System.step_of_move hmove)

/-- The files may contain something already, not all of which need be on the disk. -/
structure Init (old : Bytes → Bytes) (v : Volume T τ) : Prop where
  system : System.Init v.system
  content : v.content = old
  durable : ∀ file, v.durable file <+: v.content file

/-- What each appender has handed over to a file. -/
def handedTo (names : FileNames) (v : Volume T τ) (file : Bytes) (appender : AppenderId) : Bytes :=
  if names appender = some file then (v.system.files appender).handed else []

/-- All that the appenders of a file have accepted is in the file, and nobody is about to append to one of them. -/
structure Settled (names : FileNames) (v : Volume T τ) (file : Bytes) : Prop where
  handed : ∀ appender, names appender = some file →
    (v.system.files appender).handed = (v.system.files appender).accepted
  idle : ∀ appender, names appender = some file → ∀ t, (v.system.process.threads t).pc.appendsTo ≠ some appender

end Volume

end

end Threads

end Pans
