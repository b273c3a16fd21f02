import Pans.Memory

/-!
# Names of threads

`SetThreadName` and `GetThreadName` on Linux, as a thread calls them between and inside the statements that it logs
with. A line keeps a view of the name from its construction until its record is submitted. An assignment to
`t_thread_name` leaves every view of it dangling.
-/

namespace Pans

namespace ThreadName

/-! ## The system -/

/-- 16 characters with a C string in front. -/
abbrev NativeName := {array : CharArray 16 // 0 ∈ array.val}

/-- `pthread_setname_np` and `pthread_getname_np` on the calling thread. An error of the latter is `none`. -/
structure Pthread (K : Type) where
  setname : K → NativeName → K
  getname : K → Option NativeName

/-- What was set is what is there. -/
def Pthread.Faithful {K : Type} (pthread : Pthread K) : Prop :=
  ∀ kernel name, pthread.getname (pthread.setname kernel name) = some name

/-- What a thread has. `t_thread_name` is `none` before its first use; `assignments` counts those to it, and no step of
the code depends on it. `records` are the names that submitted records were written with. -/
structure State (K : Type) where
  kernel : K
  threadName : Option Bytes
  assignments : Nat
  records : List Bytes
  deriving DecidableEq

/-- A `string_view` of `t_thread_name`, and how often that had been assigned to. -/
structure View where
  assignments : Nat
  text : Bytes

/-- Whether the level of a statement is shown, and whether a format that its record gets to writes the name. -/
structure Visibility where
  shown : Bool
  writesName : Bool
  deriving DecidableEq

def defaultThreadName : Bytes := ascii "UNKNOWN"

section

variable {K : Type} (pthread : Pthread K)

def getNativeThreadName (kernel : K) : Bytes :=
  match pthread.getname kernel with
  | none => []
  | some nativeName => cString nativeName.val.val

/-- The name without its characters from the sixteenth on. A character array without a NUL is no C string. -/
def setNativeThreadName (kernel : K) (name : Bytes) : Outcome K Unit :=
  (memcpy (CharArray.zeros 16) 0 (name.take (min name.length (16 - 1)))).onLocal kernel fun nativeName _ =>
    if h : 0 ∈ nativeName.val then .done (pthread.setname kernel ⟨nativeName, h⟩) () else .undefined

namespace State

/-- The first use of `t_thread_name` initialises it. -/
def use (s : State K) : State K :=
  match s.threadName with
  | some _ => s
  | none => { s with threadName := some (getNativeThreadName pthread s.kernel) }

def assign (s : State K) (name : Bytes) : State K :=
  { s.use pthread with threadName := some name, assignments := s.assignments + 1 }

end State

def getThreadName (s : State K) : State K × View :=
  let s := s.use pthread
  (s, ⟨s.assignments, s.threadName.getD []⟩)

/-- `~LogLine`. A view that dangles must not be read. -/
def submit (visibility : Visibility) (view : View) (s : State K) : Outcome (State K) Unit :=
  if visibility.writesName then
    if view.assignments = s.assignments then .done { s with records := s.records ++ [view.text] } () else .undefined
  else .done s ()

/-- A line, with what is done between its construction and its destruction. -/
def logLine (visibility : Visibility) (body : State K → Outcome (State K) Unit) (s : State K) :
    Outcome (State K) Unit :=
  let (s, view) := getThreadName pthread s
  (body s).leaving (submit visibility view)

/-- An empty name fails an assertion, which logs under the name that there is. -/
def setThreadName (name : Bytes) (assertion : Visibility) (s : State K) : Outcome (State K) Unit :=
  if name = [] then
    (if assertion.shown then logLine pthread assertion (fun s => .done s ()) s else .done s ()).bind fun s _ =>
      let nativeName := getNativeThreadName pthread s.kernel
      .done (s.assign pthread (if nativeName = [] then defaultThreadName else nativeName)) ()
  else
    let s := s.assign pthread name
    (setNativeThreadName pthread s.kernel name).within fun kernel => { s with kernel }

end

/-! ## Programs -/

mutual
/-- `statement` is `PANS_LOG_LEVEL` with what its operands run, and `format` is `PANS_LOG_FMT_LEVEL` with what its
arguments run. `attempt` catches what its body throws. -/
inductive Command where
  | setThreadName (name : Bytes) (assertion : Visibility)
  | throw
  | attempt (body : Block)
  | statement (visibility : Visibility) (operands : Block)
  | format (visibility : Visibility) (arguments : Block)

inductive Block where
  | nil
  | cons (command : Command) (rest : Block)
end

section

variable {K : Type} (pthread : Pthread K)

mutual
/-- The arguments of `LogPrintf` are evaluated before it builds its line, the operands of a statement behind that. -/
def Command.run : Command → State K → Outcome (State K) Unit
  | .setThreadName name assertion, s => ThreadName.setThreadName pthread name assertion s
  | .throw, s => .threw s
  | .attempt body, s => (body.run s).tryCatch fun s => .done s ()
  | .statement visibility operands, s =>
      if visibility.shown then logLine pthread visibility (fun s => operands.run s) s else .done s ()
  | .format visibility arguments, s =>
      if visibility.shown then
        (arguments.run s).bind fun s _ => logLine pthread visibility (fun s => .done s ()) s
      else .done s ()

def Block.run : Block → State K → Outcome (State K) Unit
  | .nil, s => .done s ()
  | .cons command rest, s => (command.run s).bind fun s _ => rest.run s
end

end

/-! ## What a program does -/

mutual
def Command.throws : Command → Bool
  | .setThreadName _ _ => false
  | .throw => true
  | .attempt _ => false
  | .statement visibility operands => visibility.shown && operands.throws
  | .format visibility arguments => visibility.shown && arguments.throws

def Block.throws : Block → Bool
  | .nil => false
  | .cons command rest => command.throws || rest.throws
end

mutual
/-- It gets to a `SetThreadName`. -/
def Command.sets : Command → Bool
  | .setThreadName _ _ => true
  | .throw => false
  | .attempt body => body.sets
  | .statement visibility operands => visibility.shown && operands.sets
  | .format visibility arguments => visibility.shown && arguments.sets

def Block.sets : Block → Bool
  | .nil => false
  | .cons command rest => command.sets || !command.throws && rest.sets
end

mutual
/-- No statement whose record is written with the name gets to a `SetThreadName` in its operands. -/
def Command.safe : Command → Bool
  | .setThreadName _ _ => true
  | .throw => true
  | .attempt body => body.safe
  | .statement visibility operands =>
      !visibility.shown || operands.safe && !(visibility.writesName && operands.sets)
  | .format visibility arguments => !visibility.shown || arguments.safe

def Block.safe : Block → Bool
  | .nil => true
  | .cons command rest => command.safe && (command.throws || rest.safe)
end

/-! ## Names as values -/

/-- A thread with its name at hand. -/
structure Named (K : Type) where
  kernel : K
  name : Bytes
  records : List Bytes

/-- The first 15 characters of the name, and zeros. -/
def nativeName (name : Bytes) : NativeName :=
  ⟨⟨name.take 15 ++ List.replicate (16 - (name.take 15).length) 0, by
    have := List.length_take_le 15 name
    rw [List.length_append, List.length_replicate]
    omega⟩, by
    have := List.length_take_le 15 name
    exact List.mem_append_right _ (List.mem_replicate.mpr ⟨by omega, rfl⟩)⟩

section

variable {K : Type} (pthread : Pthread K)

def State.named (s : State K) : Named K :=
  ⟨s.kernel, s.threadName.getD (getNativeThreadName pthread s.kernel), s.records⟩

/-- The kernel has the name up to its first NUL and its fifteenth character, or none at all for a name by default. -/
def Named.Agrees (s : Named K) : Prop :=
  getNativeThreadName pthread s.kernel = cString (s.name.take 15) ∨
    s.name = defaultThreadName ∧ getNativeThreadName pthread s.kernel = []

/-- A record with this name. -/
def Named.record (s : Named K) (visibility : Visibility) (name : Bytes) : Named K :=
  if visibility.writesName then { s with records := s.records ++ [name] } else s

mutual
def Command.names : Command → Named K → Named K
  | .setThreadName name assertion, s =>
      if name = [] then
        let native := getNativeThreadName pthread s.kernel
        { if assertion.shown then s.record assertion s.name else s with
          name := if native = [] then defaultThreadName else native }
      else { s with name, kernel := pthread.setname s.kernel (nativeName name) }
  | .throw, s => s
  | .attempt body, s => body.names s
  | .statement visibility operands, s =>
      if visibility.shown then (operands.names s).record visibility s.name else s
  | .format visibility arguments, s =>
      if visibility.shown then
        let s := arguments.names s
        if arguments.throws then s else s.record visibility s.name
      else s

def Block.names : Block → Named K → Named K
  | .nil, s => s
  | .cons command rest, s => if command.throws then command.names s else rest.names (command.names s)
end

end

end ThreadName

end Pans
