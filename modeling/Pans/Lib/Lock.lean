import Mathlib.Init

/-!
# Locks

A mutex and a readers–writer lock as values. A lock says who holds it, so nobody can hold a readers–writer lock in
both modes, and two threads cannot both hold it exclusively. An acquisition gives `none` while it has to wait; a
release gives `none` where the thread does not hold the lock.
-/

structure Mutex (T : Type*) where
  owner : Option T

namespace Mutex

variable {T : Type*}

def free : Mutex T := ⟨none⟩

def Held (m : Mutex T) (t : T) : Prop := m.owner = some t

theorem Held.unique {m : Mutex T} {t u : T} (ht : m.Held t) (hu : m.Held u) : t = u :=
  Option.some.inj (ht.symm.trans hu)

def lock (m : Mutex T) (t : T) : Option (Mutex T) :=
  match m.owner with
  | none => some ⟨some t⟩
  | some _ => none

variable {m m' : Mutex T} {t u : T}

theorem lock_held (h : m.lock t = some m') : m'.Held t := by
  unfold lock at h
  split at h <;> cases h
  rfl

theorem lock_owner (h : m.lock t = some m') : m.owner = none := by
  unfold lock at h
  split at h
  · assumption
  · cases h

theorem lock_free (h : m.lock u = some m') : ¬m.Held t := by
  rw [Held, lock_owner h]
  nofun

variable [DecidableEq T]

def unlock (m : Mutex T) (t : T) : Option (Mutex T) := if m.owner = some t then some free else none

theorem unlock_held (h : m.unlock t = some m') : m.Held t := by
  unfold unlock at h
  split at h
  · assumption
  · cases h

theorem unlock_of_held (h : m.Held t) : m.unlock t = some free := if_pos h

theorem unlock_free (h : m.unlock t = some m') : m' = free := by
  rw [unlock_of_held (unlock_held h)] at h
  exact (Option.some.inj h).symm

theorem unlock_not_held (h : m.unlock u = some m') : ¬m'.Held t := by
  rw [unlock_free h]
  nofun

end Mutex

/-- A readers–writer lock: the threads that hold it shared, or the one that holds it exclusively. -/
inductive SharedMutex (T : Type*) where
  | shared (readers : List T)
  | exclusive (writer : T)

namespace SharedMutex

variable {T : Type*}

def free : SharedMutex T := .shared []

def HeldShared : SharedMutex T → T → Prop
  | .shared readers, t => t ∈ readers
  | .exclusive _, _ => False

def HeldExclusive : SharedMutex T → T → Prop
  | .shared _, _ => False
  | .exclusive writer, t => writer = t

theorem HeldShared.not_exclusive {m : SharedMutex T} {t u : T} (h : m.HeldShared t) : ¬m.HeldExclusive u := by
  cases m with
  | shared => exact id
  | exclusive => exact h.elim

theorem HeldExclusive.unique {m : SharedMutex T} {t u : T} (ht : m.HeldExclusive t) (hu : m.HeldExclusive u) :
    t = u := by
  cases m with
  | shared => exact ht.elim
  | exclusive => exact ht.symm.trans hu

def lockShared : SharedMutex T → T → Option (SharedMutex T)
  | .shared readers, t => some (.shared (t :: readers))
  | .exclusive _, _ => none

def lock : SharedMutex T → T → Option (SharedMutex T)
  | .shared [], t => some (.exclusive t)
  | .shared (_ :: _), _ => none
  | .exclusive _, _ => none

variable {m m' : SharedMutex T} {t u : T}

theorem lockShared_held (h : m.lockShared t = some m') : m'.HeldShared t := by
  cases m with
  | shared =>
      cases h
      exact List.mem_cons_self
  | exclusive => cases h

theorem lockShared_keeps (h : m.lockShared u = some m') (ht : m.HeldShared t) : m'.HeldShared t := by
  cases m with
  | shared =>
      cases h
      exact List.mem_cons_of_mem _ ht
  | exclusive => cases h

theorem lockShared_not_exclusive (h : m.lockShared u = some m') : ¬m.HeldExclusive t := by
  cases m with
  | shared => exact id
  | exclusive => cases h

theorem lock_held (h : m.lock t = some m') : m'.HeldExclusive t := by
  cases m with
  | shared readers =>
      cases readers <;> cases h
      rfl
  | exclusive => cases h

theorem lock_not_shared (h : m.lock u = some m') : ¬m.HeldShared t := by
  cases m with
  | shared readers =>
      cases readers <;> cases h
      exact List.not_mem_nil
  | exclusive => exact id

theorem lock_not_exclusive (h : m.lock u = some m') : ¬m.HeldExclusive t := by
  cases m with
  | shared => exact id
  | exclusive => cases h

/-- No thread holds the lock shared more than once. -/
def Once : SharedMutex T → Prop
  | .shared readers => readers.Nodup
  | .exclusive _ => True

theorem lockShared_holders (h : m.lockShared u = some m') (ht : m'.HeldShared t) : t = u ∨ m.HeldShared t := by
  cases m with
  | shared =>
      cases h
      exact List.mem_cons.mp ht
  | exclusive => cases h

theorem lockShared_once (h : m.lockShared u = some m') (hu : ¬m.HeldShared u) (honce : m.Once) : m'.Once := by
  cases m with
  | shared =>
      cases h
      exact List.nodup_cons.mpr ⟨hu, honce⟩
  | exclusive => cases h

/-- An acquisition leaves the lock in its own mode. -/
theorem lockShared_only (h : m.lockShared u = some m') : ¬m'.HeldExclusive t := by
  cases m with
  | shared =>
      cases h
      exact id
  | exclusive => cases h

theorem lock_exclusive (h : m.lock u = some m') : m' = .exclusive u := by
  cases m with
  | shared readers =>
      cases readers <;> cases h
      rfl
  | exclusive => cases h

variable [DecidableEq T]

def unlockShared : SharedMutex T → T → Option (SharedMutex T)
  | .shared readers, t => if t ∈ readers then some (.shared (readers.erase t)) else none
  | .exclusive _, _ => none

def unlock : SharedMutex T → T → Option (SharedMutex T)
  | .shared _, _ => none
  | .exclusive writer, t => if writer = t then some free else none

theorem unlockShared_keeps (h : m.unlockShared u = some m') (hne : t ≠ u) (ht : m.HeldShared t) :
    m'.HeldShared t := by
  cases m with
  | shared =>
      rw [unlockShared] at h
      split at h <;> cases h
      exact (List.mem_erase_of_ne hne).mpr ht
  | exclusive => cases h

theorem unlockShared_not_exclusive (h : m.unlockShared u = some m') : ¬m.HeldExclusive t := by
  cases m with
  | shared => exact id
  | exclusive => cases h

theorem unlock_held (h : m.unlock t = some m') : m.HeldExclusive t := by
  cases m with
  | shared => cases h
  | exclusive =>
      rw [unlock] at h
      split at h
      · assumption
      · cases h

theorem unlock_of_held (h : m.HeldExclusive t) : m.unlock t = some free := by
  cases m with
  | shared => exact h.elim
  | exclusive => exact if_pos h

theorem unlockShared_holders (h : m.unlockShared u = some m') (honce : m.Once) (ht : m'.HeldShared t) :
    t ≠ u ∧ m.HeldShared t := by
  cases m with
  | shared =>
      rw [unlockShared] at h
      split at h <;> cases h
      exact (List.Nodup.mem_erase_iff honce).mp ht
  | exclusive => cases h

theorem unlockShared_once (h : m.unlockShared u = some m') (honce : m.Once) : m'.Once := by
  cases m with
  | shared =>
      rw [unlockShared] at h
      split at h <;> cases h
      exact List.Nodup.erase u honce
  | exclusive => cases h

theorem unlockShared_only (h : m.unlockShared u = some m') : ¬m'.HeldExclusive t := by
  cases m with
  | shared =>
      rw [unlockShared] at h
      split at h <;> cases h
      exact id
  | exclusive => cases h

theorem unlock_free (h : m.unlock u = some m') : m' = free := by
  rw [unlock_of_held (unlock_held h)] at h
  exact (Option.some.inj h).symm

end SharedMutex
