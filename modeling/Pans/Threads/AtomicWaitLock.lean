import Pans.Lib.Interleaving

/-!
# `AtomicWaitLock`

Threads that count under a lock on which they sleep. Each operation on the atomic variable is a step, as in
`SpinLock.lean`; so is `notify_one`, and so is waking up. The variable `expected` is false whenever it is compared.
-/

namespace Pans

namespace AtomicWaitLock

/-- A thread that sleeps in `atomic_wait`, and how often the lock had been released when it went to sleep. -/
structure Waiter (T : Type) where
  thread : T
  epoch : Nat
  deriving DecidableEq

/-- `releases` counts the stores of `unlock`; no step of the code depends on it. -/
structure Shared (T : Type) where
  mutex : Bool
  counter : UInt64
  releases : Nat
  waiters : List (Waiter T)

/-- `store` and `notify` are the two statements of `unlock`. -/
inductive Pc where
  | start
  | compareExchange
  | wait
  | blocked
  | tryLock
  | read
  | write (value : UInt64)
  | store
  | notify (epoch : Nat)
  deriving DecidableEq

/-- `rounds` counts the rounds that the thread has still to finish. -/
structure Local where
  pc : Pc
  rounds : Nat
  deriving DecidableEq

inductive Op (T : Type) where
  | call (tryLock : Bool)
  | compareExchange (exchanged : Bool)
  | wait (sleeps : Bool)
  | wakeUp (spurious : Bool)
  | tryLock (locked : Bool)
  | read (value : UInt64)
  | write (value : UInt64)
  | store
  | notifyOne (woken : List T)

/-- What is left open: which way the thread takes the lock, whether a step that may fail or wake up for no reason does
so, and whom `notify_one` wakes. -/
structure Choice (T : Type) where
  tryLock : Bool
  spurious : Bool
  woken : List T

/-- Between the acquisition and the release. -/
def Pc.holds : Pc → Bool
  | read | write _ | store => true
  | _ => false

def Local.Finished (l : Local) : Prop := l.pc = .start ∧ l.rounds = 0

variable {T : Type}

abbrev Process (T : Type) := Interleaving T (Shared T) Local

def initial (counter : UInt64) (rounds : T → Nat) : Process T where
  shared := ⟨false, counter, 0, []⟩
  threads := fun t => ⟨.start, rounds t⟩

/-- A store that came after a thread had gone to sleep entitles it to be woken by the `notify_one` behind that store. -/
def Waiter.Eligible (epoch : Nat) (waiter : Waiter T) : Prop := waiter.epoch < epoch

instance (epoch : Nat) (waiter : Waiter T) : Decidable (waiter.Eligible epoch) :=
  inferInstanceAs (Decidable (_ < _))

variable [DecidableEq T]

/-- `notify_one` wakes at least one of those that are entitled to it, if there are any. -/
def Wakes (waiters : List (Waiter T)) (epoch : Nat) (woken : List T) : Prop :=
  (∃ waiter ∈ waiters, waiter.Eligible epoch) → ∃ waiter ∈ waiters, waiter.Eligible epoch ∧ waiter.thread ∈ woken

instance (waiters : List (Waiter T)) (epoch : Nat) (woken : List T) : Decidable (Wakes waiters epoch woken) :=
  inferInstanceAs (Decidable ((∃ _ ∈ _, _) → ∃ _ ∈ _, _))

def Shared.wake (s : Shared T) (woken : List T) : Shared T :=
  { s with waiters := s.waiters.filter (·.thread ∉ woken) }

def Shared.Asleep (s : Shared T) (t : T) : Prop := t ∈ s.waiters.map Waiter.thread

instance (s : Shared T) (t : T) : Decidable (s.Asleep t) := inferInstanceAs (Decidable (t ∈ _))

/-- `none` while the thread sleeps, or when it has nothing to do. -/
def move (t : T) (s : Shared T) (l : Local) (choice : Choice T) : Option (Op T × Shared T × Local) :=
  match l.pc with
  | .start =>
      if l.rounds = 0 then none
      else some (.call choice.tryLock, s, { l with pc := if choice.tryLock then .tryLock else .compareExchange })
  | .compareExchange =>
      -- The weak form may fail on an unlocked mutex.
      if s.mutex || choice.spurious then some (.compareExchange false, s, { l with pc := .wait })
      else some (.compareExchange true, { s with mutex := true }, { l with pc := .read })
  | .wait =>
      if s.mutex then some (.wait true, { s with waiters := ⟨t, s.releases⟩ :: s.waiters }, { l with pc := .blocked })
      else some (.wait false, s, { l with pc := .compareExchange })
  | .blocked =>
      if s.Asleep t then
        if choice.spurious then some (.wakeUp true, s.wake [t], { l with pc := .wait }) else none
      else some (.wakeUp false, s, { l with pc := .wait })
  | .tryLock =>
      some (.tryLock !s.mutex, { s with mutex := true }, { l with pc := if s.mutex then .start else .read })
  | .read => some (.read s.counter, s, { l with pc := .write (s.counter + 1) })
  | .write value => some (.write value, { s with counter := value }, { l with pc := .store })
  | .store =>
      some (.store, { s with mutex := false, releases := s.releases + 1 }, { l with pc := .notify (s.releases + 1) })
  | .notify epoch =>
      if Wakes s.waiters epoch choice.woken then
        some (.notifyOne choice.woken, s.wake choice.woken, ⟨.start, l.rounds - 1⟩)
      else none

def Move (t : T) (s : Shared T) (l : Local) (op : Op T) (s' : Shared T) (l' : Local) : Prop :=
  ∃ choice, move t s l choice = some (op, s', l')

abbrev Step : Process T → T × Op T → Process T → Prop := Interleaving.Step Move

/-- In `lock`, and awake. -/
def Contends (s : Shared T) (t : T) (l : Local) : Prop :=
  l.pc = .compareExchange ∨ l.pc = .wait ∨ l.pc = .blocked ∧ ¬s.Asleep t

/-- A step that does not fail, and does not wake a thread up, for no reason. Whom `notify_one` wakes is up to the
policy. -/
structure Sound (policy : List (Waiter T) → Nat → List T) (s : Process T) (e : T × Op T) (s' : Process T) : Prop where
  step : Step s e s'
  wakeUp : e.2 ≠ .wakeUp true
  compareExchange : e.2 = .compareExchange false → s.shared.mutex = true
  notifyOne : ∀ epoch, (s.threads e.1).pc = .notify epoch → e.2 = .notifyOne (policy s.shared.waiters epoch)

end AtomicWaitLock

end Pans
