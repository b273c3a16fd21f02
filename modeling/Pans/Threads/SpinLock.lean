import Pans.Lib.Interleaving

/-!
# `SpinLock`

Threads that count under a spin lock. Each operation on the flag is a step, and so are the read and the write of the
counter, which is no atomic variable.
-/

namespace Pans

namespace SpinLock

structure Shared where
  mutex : Bool
  counter : UInt64
  deriving DecidableEq

/-- `testAndSet` is the condition of the outer loop of `lock`, `test` that of the inner one. -/
inductive Pc where
  | start
  | testAndSet
  | test
  | tryLock
  | read
  | write (value : UInt64)
  | unlock
  deriving DecidableEq

/-- `rounds` counts the rounds that the thread has still to finish. -/
structure Local where
  pc : Pc
  rounds : Nat
  deriving DecidableEq

inductive Op where
  | call (tryLock : Bool)
  | testAndSet (was : Bool)
  | test (is : Bool)
  | tryLock (locked : Bool)
  | read (value : UInt64)
  | write (value : UInt64)
  | unlock
  deriving DecidableEq

/-- A round takes the lock by `lock` or by `try_lock`; after a `try_lock` that fails, the thread chooses again. -/
def move (s : Shared) (l : Local) (tryLock : Bool) : Option (Op × Shared × Local) :=
  match l.pc with
  | .start =>
      if l.rounds = 0 then none
      else some (.call tryLock, s, { l with pc := if tryLock then .tryLock else .testAndSet })
  | .testAndSet =>
      some (.testAndSet s.mutex, { s with mutex := true }, { l with pc := if s.mutex then .test else .read })
  | .test => some (.test s.mutex, s, { l with pc := if s.mutex then .test else .testAndSet })
  | .tryLock =>
      some (.tryLock !s.mutex, { s with mutex := true }, { l with pc := if s.mutex then .start else .read })
  | .read => some (.read s.counter, s, { l with pc := .write (s.counter + 1) })
  | .write value => some (.write value, { s with counter := value }, { l with pc := .unlock })
  | .unlock => some (.unlock, { s with mutex := false }, ⟨.start, l.rounds - 1⟩)

def Move {T : Type} (_ : T) (s : Shared) (l : Local) (op : Op) (s' : Shared) (l' : Local) : Prop :=
  ∃ tryLock, move s l tryLock = some (op, s', l')

abbrev Process (T : Type) := Interleaving T Shared Local

abbrev Step {T : Type} : Process T → T × Op → Process T → Prop := Interleaving.Step Move

def initial {T : Type} (counter : UInt64) (rounds : T → Nat) : Process T where
  shared := ⟨false, counter⟩
  threads := fun t => ⟨.start, rounds t⟩

/-- Between the acquisition and the release. -/
def Pc.holds : Pc → Bool
  | read | write _ | unlock => true
  | _ => false

def Local.Finished (l : Local) : Prop := l.pc = .start ∧ l.rounds = 0

end SpinLock

end Pans
