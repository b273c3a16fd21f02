import Pans.Lib.Interleaving
import Pans.Lib.Lock
import Pans.Logger.Manager

/-!
# Threads that ask for loggers

`LoggerManager::getLogger`, an access to what the threads share at a time, while other threads do the same and
configure the loggers that exist or log to them. The manager is constructed before anybody can see it. What allocates
may throw; the guard then releases the mutex.
-/

namespace Pans

namespace Registry

/-- `manager` has the registry and the heap of the loggers, `mutex` is `mutex_`. -/
structure Shared (T : Type) where
  manager : LogSystem
  mutex : Mutex T

inductive Call where
  | getRootLogger
  | getLogger (name : Bytes)
  deriving DecidableEq

/-- A null pointer is `returned none`. -/
inductive Result where
  | returned (logger : Option LoggerId)
  | threw
  deriving DecidableEq

inductive Pc where
  | idle
  | getRoot
  | checkName (name : Bytes)
  | lock (name : Bytes)
  | find (name : Bytes)
  | makeShared (name : Bytes)
  | setRoot (name : Bytes) (logger : LoggerId)
  | emplace (name : Bytes) (logger : LoggerId)
  | unlock (name : Bytes) (result : Result)
  | ret (call : Call) (result : Result)
  deriving DecidableEq

/-- The name that a thread is asking for. -/
def Pc.name : Pc → Option Bytes
  | checkName name | lock name | find name | makeShared name | setRoot name _ | emplace name _ | unlock name _ => some name
  | ret (.getLogger name) _ => some name
  | _ => none

def Call.enter : Call → Pc
  | getRootLogger => .getRoot
  | getLogger name => .checkName name

inductive Op where
  | call (call : Call)
  | ret (call : Call) (result : Result)
  | silent
  | other (op : LogSystem.Op)

/-- What is left open: a thread in no call makes one or does something else with the loggers, and an allocation
throws or not. -/
inductive Choice where
  | call (call : Call)
  | other (op : LogSystem.Op)
  | proceed
  | throw

section

variable {T : Type} [DecidableEq T] (render : Formatter → LogRecordView → Bytes)

/-- `std::unordered_map::emplace` under the name of the logger; an entry that exists stays. -/
def emplaced (sys : LogSystem) (logger : LoggerId) : LogSystem :=
  let name := (sys.loggers logger).name
  match sys.registry.lookup name with
  | some _ => sys
  | none => { sys with registry := sys.registry ++ [(name, logger)] }

/-- What other members of the program do to the manager: anything but asking for a logger. -/
def perform (sys : LogSystem) : LogSystem.Op → Option LogSystem
  | .getLogger _ => none
  | op => sys.perform render op

/-- `none` while the mutex has to be waited for. -/
def move (t : T) (s : Shared T) (pc : Pc) (choice : Choice) : Option (Op × Shared T × Pc) :=
  let sys := s.manager
  match pc, choice with
  | .idle, .call call => some (.call call, s, call.enter)
  | .idle, .other op => (perform render sys op).map fun sys => (.other op, { s with manager := sys }, .idle)
  | .getRoot, .proceed => some (.silent, s, .ret .getRootLogger (.returned (some LogSystem.root)))
  | .checkName name, .proceed =>
      if name.isEmpty then some (.silent, s, .ret (.getLogger name) (.returned none))
      else some (.silent, s, .lock name)
  | .lock name, .proceed => (s.mutex.lock t).map fun mutex => (.silent, { s with mutex }, .find name)
  | .find name, .proceed =>
      match sys.registry.lookup name with
      | some logger => some (.silent, s, .unlock name (.returned (some logger)))
      | none => some (.silent, s, .makeShared name)
  | .makeShared name, .proceed =>
      let loggers := Function.update sys.loggers sys.next (Logger.Impl.new name)
      some (.silent, { s with manager := { sys with loggers, next := sys.next + 1 } }, .setRoot name sys.next)
  | .setRoot name logger, .proceed =>
      some (.silent, { s with manager := sys.onLogger logger (·.setRoot LogSystem.root) }, .emplace name logger)
  | .emplace name logger, .proceed =>
      some (.silent, { s with manager := emplaced sys logger }, .unlock name (.returned (some logger)))
  | .find name, .throw => some (.silent, s, .unlock name .threw)
  | .makeShared name, .throw => some (.silent, s, .unlock name .threw)
  | .emplace name _, .throw => some (.silent, s, .unlock name .threw)
  | .unlock name result, .proceed =>
      (s.mutex.unlock t).map fun mutex => (.silent, { s with mutex }, .ret (.getLogger name) result)
  | .ret call result, .proceed => some (.ret call result, s, .idle)
  | _, _ => none

def Move (t : T) (s : Shared T) (pc : Pc) (op : Op) (s' : Shared T) (pc' : Pc) : Prop :=
  ∃ choice, move render t s pc choice = some (op, s', pc')

abbrev Process (T : Type) := Interleaving T (Shared T) Pc

abbrev Step : Process T → T × Op → Process T → Prop := Interleaving.Step (Move render)

end

def initial (T : Type) : Process T where
  shared := ⟨LogSystem.initial, .free⟩
  threads := fun _ => .idle

end Registry

end Pans
