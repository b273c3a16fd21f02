import Pans.Threads.Machine

/-!
# The locks that a thread holds

What a thread holds follows from where it is. An operation takes and gives up the same locks in the program of the
thread and in the shared state, so a thread always holds what its place says.
-/

namespace Pans

namespace Threads

structure Held where
  shared : Option LoggerId
  exclusive : Option LoggerId
  appender : Option AppenderId

namespace Pc

def shared : Pc → Option LoggerId
  | testAppenders _ logger | unlockEmpty _ logger | format _ logger | visitLoop _ logger _ | unlockShared logger
  | unlockFound logger | getFormatter logger => some logger
  | loop d | readAppenderLevel d _ | lockAppender d _ | write d _ _ | flushFatal d _ | unlockAppender d _ =>
      some d.logger
  | visitLock _ _ caller | visit _ _ caller | visitUnlock _ _ caller => caller.map (·.1)
  | _ => none

def exclusive : Pc → Option LoggerId
  | apply c | unlock c => some c.logger
  | _ => none

def appender : Pc → Option AppenderId
  | write _ a _ | flushFatal _ a | unlockAppender _ a | visit _ a _ | visitUnlock _ a _ => some a
  | _ => none

def held (pc : Pc) : Held := ⟨pc.shared, pc.exclusive, pc.appender⟩

end Pc

def Op.after (h : Held) : Op → Held
  | lockShared logger => { h with shared := some logger }
  | unlockShared _ => { h with shared := none }
  | lock appender => { h with appender := some appender }
  | unlock _ | appended _ => { h with appender := none }
  | lockExclusive logger => { h with exclusive := some logger }
  | unlockExclusive _ => { h with exclusive := none }
  | _ => h

def Op.Needs (h : Held) : Op → Prop
  | unlockShared logger => h.shared = some logger
  | test _ logger _ => h.shared = some logger
  | format x => h.shared = some x.logger
  | check c => h.shared = some c.logger
  | getFormatter logger _ => h.shared = some logger
  | write logger appender _ => h.shared = some logger ∧ h.appender = some appender
  | appended c => h.shared = some c.logger ∧ h.appender = some c.appender
  | unlock appender => h.appender = some appender
  | apply c => h.exclusive = some c.logger
  | unlockExclusive logger => h.exclusive = some logger
  | _ => True

/-- The place of the program at which an operation on an appender, or an update, stands. -/
def Op.At {T : Type} (s : Shared T) (pc : Pc) : Op → Prop
  | check c => ∃ d, pc = .readAppenderLevel d c.appender ∧
      (c.passed = false → d.record.level.toU8 < (s.appenders c.appender).level.toU8)
  | write logger appender _ => ∃ d written, pc = .write d appender written ∧ d.logger = logger
  | appended c => ∃ d, pc = .unlockAppender d c.appender
  | unlock appender => ∃ kind caller, pc = .visitUnlock kind appender caller
  | apply c => pc = .apply c
  | _ => True

structure Shared.Grants {T : Type} (s : Shared T) (t : T) (h : Held) : Prop where
  shared : ∀ logger, h.shared = some logger → (s.loggerMutex logger).HeldShared t
  exclusive : ∀ logger, h.exclusive = some logger → (s.loggerMutex logger).HeldExclusive t
  appender : ∀ appender, h.appender = some appender → (s.appenderMutex appender).Held t

theorem grants_none {T : Type} (s : Shared T) (t : T) : s.Grants t ⟨none, none, none⟩ := ⟨nofun, nofun, nofun⟩

@[simp] theorem Local.goto_pc {τ : Type} (l : Local τ) (pc : Pc) : (l.goto pc).pc = pc := rfl

/-! ## In the program of a thread -/

section

variable {T τ : Type} {render : Formatter → LogRecordView → τ → Bytes × τ} {s : Shared T} {l l' : Local τ} {op : Op}

theorem enter_held (call : Call) : call.enter.held = ⟨none, none, none⟩ := by
  cases call with
  | route task => cases task <;> rfl
  | _ => rfl

theorem next_held (h : next render s l = some (op, l')) : l'.pc.held = op.after l.pc.held := by
  obtain ⟨pc, cache, calls⟩ := l
  cases pc <;> simp only [next] at h
  case readLevel | askLevel | loop | readAppenderLevel | visitLoop | visitUnlock =>
      split at h <;> cases h <;> rfl
  case testAppenders task logger =>
      split at h <;> cases h
      · rfl
      · cases task <;> rfl
  case toRoot task logger =>
      split at h <;> cases h <;> cases task <;> rfl
  case write =>
      split at h
      · cases h
        rfl
      · split at h <;> cases h <;> rfl
  all_goals cases h <;> rfl

theorem next_needs (h : next render s l = some (op, l')) : op.Needs l.pc.held := by
  obtain ⟨pc, cache, calls⟩ := l
  cases pc <;> simp only [next] at h
  case readLevel | askLevel | toRoot | loop | visitLoop =>
      split at h <;> cases h <;> trivial
  case testAppenders | readAppenderLevel | visitUnlock =>
      split at h <;> cases h <;> rfl
  case write =>
      split at h
      · cases h
        exact ⟨rfl, rfl⟩
      · split at h <;> cases h <;> trivial
  case unlockAppender =>
      cases h
      exact ⟨rfl, rfl⟩
  all_goals cases h <;> first | rfl | trivial

theorem next_at (h : next render s l = some (op, l')) : op.At s l.pc := by
  obtain ⟨pc, cache, calls⟩ := l
  cases pc <;> simp only [next] at h
  case readLevel | askLevel | testAppenders | toRoot | loop | visitLoop =>
      split at h <;> cases h <;> trivial
  case readAppenderLevel d a =>
      split at h <;> cases h
      · rename_i hlevel
        exact ⟨d, rfl, fun _ => hlevel⟩
      · refine ⟨d, rfl, fun hpassed => ?_⟩
        cases hpassed
  case write d a written =>
      split at h
      · cases h
        exact ⟨d, written, rfl, rfl⟩
      · split at h <;> cases h <;> trivial
  case unlockAppender d a =>
      cases h
      exact ⟨d, rfl⟩
  case visitUnlock kind a caller =>
      split at h <;> cases h <;> exact ⟨kind, _, rfl⟩
  all_goals cases h <;> first | rfl | trivial

end

/-! ## In the shared state -/

section

variable {T : Type} [DecidableEq T] {s s' : Shared T} {t u : T} {op : Op}

/-- What an operation of a thread can do to the lock of a logger. -/
theorem run_loggerMutex (h : op.run u s = some s') (logger : LoggerId) :
    s'.loggerMutex logger = s.loggerMutex logger ∨
      (s.loggerMutex logger).lockShared u = some (s'.loggerMutex logger) ∨
      (s.loggerMutex logger).lock u = some (s'.loggerMutex logger) ∨
      (op = .unlockShared logger ∧ (s.loggerMutex logger).unlockShared u = some (s'.loggerMutex logger)) ∨
      (op = .unlockExclusive logger ∧ (s.loggerMutex logger).unlock u = some (s'.loggerMutex logger)) := by
  cases op with
  | lockShared other | unlockShared other | lockExclusive other | unlockExclusive other =>
      obtain ⟨m, hm, rfl⟩ := Option.map_eq_some_iff.mp h
      rcases eq_or_ne logger other with rfl | hne
      · simp [Shared.setLoggerMutex, hm]
      · simp [Shared.setLoggerMutex, hne]
  | lock | appended | unlock =>
      obtain ⟨m, hm, rfl⟩ := Option.map_eq_some_iff.mp h
      exact .inl rfl
  | _ =>
      cases h
      exact .inl rfl

theorem run_shared {logger : LoggerId} (h : op.run u s = some s') (ht : (s.loggerMutex logger).HeldShared t) :
    (s'.loggerMutex logger).HeldShared t ∨ (u = t ∧ op = .unlockShared logger) := by
  rcases run_loggerMutex h logger with heq | hlock | hlock | ⟨rfl, hunlock⟩ | ⟨_, hunlock⟩
  · exact .inl (heq ▸ ht)
  · exact .inl (SharedMutex.lockShared_keeps hlock ht)
  · exact absurd ht (SharedMutex.lock_not_shared hlock)
  · rcases eq_or_ne t u with rfl | htu
    · exact .inr ⟨rfl, rfl⟩
    · exact .inl (SharedMutex.unlockShared_keeps hunlock htu ht)
  · exact absurd (SharedMutex.unlock_held hunlock) ht.not_exclusive

theorem run_exclusive {logger : LoggerId} (h : op.run u s = some s') (ht : (s.loggerMutex logger).HeldExclusive t) :
    (s'.loggerMutex logger).HeldExclusive t ∨ (u = t ∧ op = .unlockExclusive logger) := by
  rcases run_loggerMutex h logger with heq | hlock | hlock | ⟨_, hunlock⟩ | ⟨rfl, hunlock⟩
  · exact .inl (heq ▸ ht)
  · exact absurd ht (SharedMutex.lockShared_not_exclusive hlock)
  · exact absurd ht (SharedMutex.lock_not_exclusive hlock)
  · exact absurd ht (SharedMutex.unlockShared_not_exclusive hunlock)
  · exact .inr ⟨(SharedMutex.unlock_held hunlock).unique ht, rfl⟩

def Op.Releases (appender : AppenderId) : Op → Prop
  | unlock a => a = appender
  | appended c => c.appender = appender
  | _ => False

theorem run_appenderMutex (h : op.run u s = some s') (appender : AppenderId) :
    s'.appenderMutex appender = s.appenderMutex appender ∨
      (op = .lock appender ∧ (s.appenderMutex appender).lock u = some (s'.appenderMutex appender)) ∨
      (op.Releases appender ∧ (s.appenderMutex appender).unlock u = some (s'.appenderMutex appender)) := by
  have hset (other : AppenderId) (m : Mutex T) :
      (s.setAppenderMutex other m).appenderMutex appender =
        if appender = other then m else s.appenderMutex appender := by
    simp [Shared.setAppenderMutex, Function.update_apply]
  cases op with
  | lock other | unlock other =>
      obtain ⟨m, hm, rfl⟩ := Option.map_eq_some_iff.mp h
      rcases eq_or_ne appender other with rfl | hne
      · simp [hset, hm, Op.Releases]
      · simp [hset, hne]
  | appended c =>
      obtain ⟨m, hm, rfl⟩ := Option.map_eq_some_iff.mp h
      rcases eq_or_ne appender c.appender with rfl | hne
      · simp [hset, hm, Op.Releases]
      · simp [hset, hne]
  | lockShared | unlockShared | lockExclusive | unlockExclusive =>
      obtain ⟨m, hm, rfl⟩ := Option.map_eq_some_iff.mp h
      exact .inl rfl
  | _ =>
      cases h
      exact .inl rfl

theorem run_appender {appender : AppenderId} (h : op.run u s = some s') (ht : (s.appenderMutex appender).Held t) :
    (s'.appenderMutex appender).Held t ∨ (u = t ∧ op.Releases appender) := by
  rcases run_appenderMutex h appender with heq | ⟨_, hlock⟩ | ⟨hreleases, hunlock⟩
  · exact .inl (heq ▸ ht)
  · exact absurd ht (Mutex.lock_free hlock)
  · exact .inr ⟨(Mutex.unlock_held hunlock).unique ht, hreleases⟩

theorem Shared.Grants.other {h : Held} (hgrants : s.Grants t h) (hrun : op.run u s = some s') (htu : t ≠ u) :
    s'.Grants t h where
  shared _ hlogger := (run_shared hrun (hgrants.shared _ hlogger)).resolve_right fun hu => htu hu.1.symm
  exclusive _ hlogger := (run_exclusive hrun (hgrants.exclusive _ hlogger)).resolve_right fun hu => htu hu.1.symm
  appender _ happender := (run_appender hrun (hgrants.appender _ happender)).resolve_right fun hu => htu hu.1.symm

/-- An operation gives the thread what its program counts on. -/
theorem Shared.Grants.own {h : Held} (hgrants : s.Grants t h) (hrun : op.run t s = some s') :
    s'.Grants t (op.after h) := by
  have hshared (logger) (hlogger : h.shared = some logger) := run_shared hrun (hgrants.shared logger hlogger)
  have hexclusive (logger) (hlogger : h.exclusive = some logger) :=
    run_exclusive hrun (hgrants.exclusive logger hlogger)
  have happender (appender) (ha : h.appender = some appender) := run_appender hrun (hgrants.appender appender ha)
  cases op <;> simp only [reduceCtorEq, Op.Releases, and_false, or_false, true_and] at hshared hexclusive happender
  case lockShared logger =>
      refine ⟨fun other hother => ?_, hexclusive, happender⟩
      obtain ⟨m, hm, rfl⟩ := Option.map_eq_some_iff.mp hrun
      cases hother
      simpa [Shared.setLoggerMutex] using SharedMutex.lockShared_held hm
  case lockExclusive logger =>
      refine ⟨hshared, fun other hother => ?_, happender⟩
      obtain ⟨m, hm, rfl⟩ := Option.map_eq_some_iff.mp hrun
      cases hother
      simpa [Shared.setLoggerMutex] using SharedMutex.lock_held hm
  case lock appender =>
      refine ⟨hshared, hexclusive, fun other hother => ?_⟩
      obtain ⟨m, hm, rfl⟩ := Option.map_eq_some_iff.mp hrun
      cases hother
      simpa [Shared.setAppenderMutex] using Mutex.lock_held hm
  case unlockShared => exact ⟨nofun, hexclusive, happender⟩
  case unlockExclusive => exact ⟨hshared, nofun, happender⟩
  case unlock | appended => exact ⟨hshared, hexclusive, nofun⟩
  all_goals exact ⟨hshared, hexclusive, happender⟩

end

/-! ## One step of a thread -/

section

variable {T τ : Type} [DecidableEq T] {render : Formatter → LogRecordView → τ → Bytes × τ} {s s' : Shared T} {t : T}
  {l l' : Local τ} {e : Event}

theorem Move.run (h : Move render t s l e s' l') : e.op.run t s = some s' := by
  cases h with
  | call => rfl
  | next _ hrun => exact hrun

theorem Move.needs (h : Move render t s l e s' l') : e.op.Needs l.pc.held := by
  cases h with
  | call => trivial
  | next hnext _ => exact next_needs hnext

theorem Move.at (h : Move render t s l e s' l') : e.op.At s l.pc := by
  cases h with
  | call => trivial
  | next hnext _ => exact next_at hnext

theorem Move.held (h : Move render t s l e s' l') : l'.pc.held = e.op.after l.pc.held := by
  cases h with
  | call call hidle =>
      rw [hidle]
      exact enter_held call
  | next hnext _ => exact next_held hnext

end

end Threads

end Pans
