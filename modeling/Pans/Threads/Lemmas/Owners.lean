import Pans.Lib.Progress
import Pans.Threads.Lemmas.Locks

/-!
# The owners of the locks

A lock is held by nobody but a thread whose place says so. A thread asks for the lock of a logger with no lock in
its hands, and for that of an appender with no other appender's, so whoever waits, waits for a thread that is
further on.
-/

namespace Pans

namespace Threads

/-- What a thread holds when it asks for a lock. -/
def Op.Wants (h : Held) : Op → Prop
  | lockShared _ | lockExclusive _ => h = ⟨none, none, none⟩
  | lock _ => h.appender = none
  | _ => True

structure Shared.Owned {T : Type} (s : Shared T) (held : T → Held) : Prop where
  once : ∀ logger, (s.loggerMutex logger).Once
  shared : ∀ logger t, (s.loggerMutex logger).HeldShared t → (held t).shared = some logger
  exclusive : ∀ logger t, (s.loggerMutex logger).HeldExclusive t → (held t).exclusive = some logger
  appender : ∀ appender t, (s.appenderMutex appender).Held t → (held t).appender = some appender

section

variable {T τ : Type} {render : Formatter → LogRecordView → τ → Bytes × τ} {s : Shared T} {l l' : Local τ} {op : Op}

end

/-! ## One step -/

section

variable {T : Type} {s s' : Shared T} {t u : T} {op : Op} {held held' : T → Held}

/-- A change to the lock of one logger. -/
theorem Shared.Owned.setLoggerMutex (h : s.Owned held) {logger : LoggerId} {m : SharedMutex T} (honce : m.Once)
    (hshared : ∀ t, m.HeldShared t → (held' t).shared = some logger)
    (hexclusive : ∀ t, m.HeldExclusive t → (held' t).exclusive = some logger)
    (hkeeps : ∀ other t, other ≠ logger →
      ((held t).shared = some other → (held' t).shared = some other) ∧
      ((held t).exclusive = some other → (held' t).exclusive = some other))
    (happender : ∀ t, (held' t).appender = (held t).appender) : (s.setLoggerMutex logger m).Owned held' := by
  have hset (other : LoggerId) :
      (s.setLoggerMutex logger m).loggerMutex other = if other = logger then m else s.loggerMutex other := by
    simp [Shared.setLoggerMutex, Function.update_apply]
  constructor
  · intro other
    rw [hset]
    split
    · exact honce
    · exact h.once other
  · intro other t
    rw [hset]
    split
    · rename_i heq
      subst heq
      exact hshared t
    · rename_i hne
      exact fun ht => (hkeeps other t hne).1 (h.shared other t ht)
  · intro other t
    rw [hset]
    split
    · rename_i heq
      subst heq
      exact hexclusive t
    · rename_i hne
      exact fun ht => (hkeeps other t hne).2 (h.exclusive other t ht)
  · intro appender t ht
    rw [happender]
    exact h.appender appender t ht

theorem Shared.Owned.setAppenderMutex (h : s.Owned held) {appender : AppenderId} {m : Mutex T}
    (happender : ∀ t, m.Held t → (held' t).appender = some appender)
    (hkeeps : ∀ other t, other ≠ appender → (held t).appender = some other → (held' t).appender = some other)
    (hshared : ∀ t, (held' t).shared = (held t).shared) (hexclusive : ∀ t, (held' t).exclusive = (held t).exclusive) :
    (s.setAppenderMutex appender m).Owned held' := by
  constructor
  · exact h.once
  · intro logger t ht
    rw [hshared]
    exact h.shared logger t ht
  · intro logger t ht
    rw [hexclusive]
    exact h.exclusive logger t ht
  · intro other t ht
    rcases eq_or_ne other appender with rfl | hne
    · exact happender t (by simpa [Shared.setAppenderMutex] using ht)
    · exact hkeeps other t hne (h.appender other t (by simpa [Shared.setAppenderMutex, hne] using ht))

variable [DecidableEq T]

/-- A thread that gives a lock up is no owner of it any more; one that acquires it is the only new one. -/
theorem Shared.Owned.step (h : s.Owned held) (hrun : op.run u s = some s') (hneeds : op.Needs (held u))
    (hwants : op.Wants (held u)) (hself : held' u = op.after (held u)) (hothers : ∀ t, t ≠ u → held' t = held t) :
    s'.Owned held' := by
  have hsame {α : Type} (f : Held → α) (hf : f (op.after (held u)) = f (held u)) (t : T) :
      f (held' t) = f (held t) := by
    by_cases htu : t = u
    · rw [htu, hself, hf]
    · rw [hothers t htu]
  cases op with
  | lockShared logger =>
      obtain ⟨m, hm, rfl⟩ := Option.map_eq_some_iff.mp hrun
      have hnone : held u = ⟨none, none, none⟩ := hwants
      refine h.setLoggerMutex (SharedMutex.lockShared_once hm ?_ (h.once logger)) ?_ ?_ ?_ (hsame _ rfl)
      · intro hu
        have := h.shared logger u hu
        rw [hnone] at this
        cases this
      · intro t ht
        rcases eq_or_ne t u with rfl | htu
        · rw [hself]
          rfl
        · rw [hothers t htu]
          exact h.shared logger t ((SharedMutex.lockShared_holders hm ht).resolve_left htu)
      · exact fun t ht => absurd ht (SharedMutex.lockShared_only hm)
      · intro other t hne
        rcases eq_or_ne t u with rfl | htu
        · rw [hnone]
          exact ⟨nofun, nofun⟩
        · rw [hothers t htu]
          exact ⟨id, id⟩
  | lockExclusive logger =>
      obtain ⟨m, hm, rfl⟩ := Option.map_eq_some_iff.mp hrun
      have hnone : held u = ⟨none, none, none⟩ := hwants
      obtain rfl := SharedMutex.lock_exclusive hm
      refine h.setLoggerMutex trivial (fun t ht => ht.elim) ?_ ?_ (hsame _ rfl)
      · intro t ht
        obtain rfl : u = t := ht
        rw [hself]
        rfl
      · intro other t hne
        rcases eq_or_ne t u with rfl | htu
        · rw [hnone]
          exact ⟨nofun, nofun⟩
        · rw [hothers t htu]
          exact ⟨id, id⟩
  | unlockShared logger =>
      obtain ⟨m, hm, rfl⟩ := Option.map_eq_some_iff.mp hrun
      refine h.setLoggerMutex (SharedMutex.unlockShared_once hm (h.once logger)) ?_ ?_ ?_ (hsame _ rfl)
      · intro t ht
        obtain ⟨htu, ht⟩ := SharedMutex.unlockShared_holders hm (h.once logger) ht
        rw [hothers t htu]
        exact h.shared logger t ht
      · exact fun t ht => absurd ht (SharedMutex.unlockShared_only hm)
      · intro other t hne
        rcases eq_or_ne t u with rfl | htu
        · refine ⟨fun hother => ?_, fun hother => (hsame Held.exclusive rfl t).trans hother⟩
          exact absurd (Option.some.inj (hother.symm.trans hneeds)) hne
        · rw [hothers t htu]
          exact ⟨id, id⟩
  | unlockExclusive logger =>
      obtain ⟨m, hm, rfl⟩ := Option.map_eq_some_iff.mp hrun
      obtain rfl := SharedMutex.unlock_free hm
      refine h.setLoggerMutex List.nodup_nil (fun t ht => absurd ht List.not_mem_nil) (fun t ht => ht.elim) ?_
        (hsame _ rfl)
      intro other t hne
      rcases eq_or_ne t u with rfl | htu
      · refine ⟨fun hother => (hsame Held.shared rfl t).trans hother, fun hother => ?_⟩
        exact absurd (Option.some.inj (hother.symm.trans hneeds)) hne
      · rw [hothers t htu]
        exact ⟨id, id⟩
  | lock appender =>
      obtain ⟨m, hm, rfl⟩ := Option.map_eq_some_iff.mp hrun
      refine h.setAppenderMutex ?_ ?_ (hsame _ rfl) (hsame _ rfl)
      · intro t ht
        obtain rfl := ht.unique (Mutex.lock_held hm)
        rw [hself]
        rfl
      · intro other t hne hother
        rcases eq_or_ne t u with rfl | htu
        · have hnone : (held t).appender = none := hwants
          rw [hnone] at hother
          cases hother
        · rwa [hothers t htu]
  | unlock appender | appended c =>
      obtain ⟨m, hm, rfl⟩ := Option.map_eq_some_iff.mp hrun
      refine h.setAppenderMutex (fun t ht => absurd ht (Mutex.unlock_not_held hm)) ?_ (hsame _ rfl) (hsame _ rfl)
      intro other t hne hother
      rcases eq_or_ne t u with rfl | htu
      · first
        | exact absurd (Option.some.inj (hother.symm.trans hneeds)) hne
        | exact absurd (Option.some.inj (hother.symm.trans hneeds.2)) hne
      · rwa [hothers t htu]
  | _ =>
      cases hrun
      obtain rfl : held' = held := funext (hsame id rfl)
      exact ⟨h.once, h.shared, h.exclusive, h.appender⟩

end

/-! ## A run -/

section

variable {T τ : Type} [DecidableEq T] {render : Formatter → LogRecordView → τ → Bytes × τ}
  {history : List (T × Event)} {s s' : Process T τ} {t : T} {op : Op} {l' : Local τ}

end

end Threads

end Pans
