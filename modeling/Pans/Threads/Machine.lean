import Pans.Lib.Interleaving
import Pans.Lib.Lock
import Pans.Logger.Graph

/-!
# Threads that log

Each thread runs the members of loggers and appenders one after another, a call at a time. A step of a thread is one
access to what the threads share: a read, a lock or an unlock, a byte given to a sink, an update under the lock.
Formatting reads the formatter and works on what the thread has for itself, so it is one step; it does not fail.
-/

namespace Pans

namespace Threads

/-! ## What the threads share -/

/-- The loggers and the appenders, with the `mutex_` of each. -/
structure Shared (T : Type) where
  loggers : Loggers
  appenders : AppenderId → Appender.Impl
  loggerMutex : LoggerId → SharedMutex T
  appenderMutex : AppenderId → Mutex T

namespace Shared

variable {T : Type}

def onLogger (s : Shared T) (logger : LoggerId) (f : Logger.Impl → Logger.Impl) : Shared T :=
  { s with loggers := Function.update s.loggers logger (f (s.loggers logger)) }

def onAppender (s : Shared T) (appender : AppenderId) (f : Appender.Impl → Appender.Impl) : Shared T :=
  { s with appenders := Function.update s.appenders appender (f (s.appenders appender)) }

def setLoggerMutex (s : Shared T) (logger : LoggerId) (m : SharedMutex T) : Shared T :=
  { s with loggerMutex := Function.update s.loggerMutex logger m }

def setAppenderMutex (s : Shared T) (appender : AppenderId) (m : Mutex T) : Shared T :=
  { s with appenderMutex := Function.update s.appenderMutex appender m }

end Shared

/-! ## Calls -/

/-- The members that take the lock of a logger exclusively. -/
inductive Config where
  | setFormatter (logger : LoggerId) (formatter : Formatter)
  | addAppender (logger : LoggerId) (appender : AppenderId)
  | removeAppender (logger : LoggerId) (appender : AppenderId)
  | clearAppenders (logger : LoggerId)
  deriving DecidableEq

namespace Config

def logger : Config → LoggerId
  | setFormatter logger _ => logger
  | addAppender logger _ => logger
  | removeAppender logger _ => logger
  | clearAppenders logger => logger

def apply : Config → Logger.Impl → Logger.Impl
  | setFormatter _ formatter, this => this.setFormatter formatter
  | addAppender _ appender, this => this.addAppender appender
  | removeAppender _ appender, this => this.removeAppender appender
  | clearAppenders _, this => this.clearAppenders

def Removes (logger : LoggerId) (appender : AppenderId) (c : Config) : Prop :=
  c = .removeAppender logger appender ∨ c = .clearAppenders logger

end Config

inductive Visit where
  | flush
  | sync
  deriving DecidableEq

/-- What a logger takes to its root logger when it has no appenders. -/
inductive Task where
  | submit (record : LogRecordView)
  | shouldLog (level : LogLevel)
  | visit (kind : Visit)
  deriving DecidableEq

/-- `visitAppender` is `Appender::flush` or `Appender::sync`. -/
inductive Call where
  | route (task : Task) (logger : LoggerId)
  | visitAppender (kind : Visit) (appender : AppenderId)
  | configure (c : Config)
  | setLevel (logger : LoggerId) (level : LogLevel)
  | setAppenderLevel (appender : AppenderId) (level : LogLevel)
  | getFormatter (logger : LoggerId)
  deriving DecidableEq

/-! ## Operations -/

/-- The formatter and the appenders that `submit` finds when it formats a record, and the text it gets. -/
structure Rendering where
  logger : LoggerId
  formatter : Formatter
  appenders : List AppenderId
  record : LogRecordView
  text : Bytes
  deriving DecidableEq

structure Check where
  logger : LoggerId
  appender : AppenderId
  passed : Bool
  deriving DecidableEq

/-- A text that went to an appender as a whole. -/
structure Copy where
  logger : LoggerId
  appender : AppenderId
  text : Bytes
  deriving DecidableEq

/-- What a step does to what is shared. An operation on an appender names the logger through which it comes. A
logger that tests its list of appenders for being empty finds the list; `appended` is the unlock at the end of
`append`; `answer` is what `shouldLog` comes back with. -/
inductive Op where
  | call (call : Call)
  | ret
  | silent
  | lockShared (logger : LoggerId)
  | unlockShared (logger : LoggerId)
  | test (task : Task) (logger : LoggerId) (appenders : List AppenderId)
  | format (x : Rendering)
  | check (c : Check)
  | lock (appender : AppenderId)
  | write (logger : LoggerId) (appender : AppenderId) (byte : UInt8)
  | appended (c : Copy)
  | unlock (appender : AppenderId)
  | lockExclusive (logger : LoggerId)
  | apply (c : Config)
  | unlockExclusive (logger : LoggerId)
  | setLevel (logger : LoggerId) (level : LogLevel)
  | setAppenderLevel (appender : AppenderId) (level : LogLevel)
  | getFormatter (logger : LoggerId) (formatter : Formatter)
  | answer (shouldLog : Bool)
  deriving DecidableEq

/-- `none` while a lock has to be waited for. -/
def Op.run {T : Type} [DecidableEq T] (t : T) (s : Shared T) : Op → Option (Shared T)
  | call _ | ret | silent | test _ _ _ | format _ | check _ | getFormatter _ _ | answer _ => some s
  | lockShared logger => ((s.loggerMutex logger).lockShared t).map (s.setLoggerMutex logger)
  | unlockShared logger => ((s.loggerMutex logger).unlockShared t).map (s.setLoggerMutex logger)
  | lock appender => ((s.appenderMutex appender).lock t).map (s.setAppenderMutex appender)
  | write _ appender byte => some (s.onAppender appender (·.writeUnlocked [byte]))
  | appended c => ((s.appenderMutex c.appender).unlock t).map (s.setAppenderMutex c.appender)
  | unlock appender => ((s.appenderMutex appender).unlock t).map (s.setAppenderMutex appender)
  | lockExclusive logger => ((s.loggerMutex logger).lock t).map (s.setLoggerMutex logger)
  | apply c => some (s.onLogger c.logger c.apply)
  | unlockExclusive logger => ((s.loggerMutex logger).unlock t).map (s.setLoggerMutex logger)
  | setLevel logger level => some (s.onLogger logger (·.setLevel level))
  | setAppenderLevel appender level => some (s.onAppender appender (·.setLevel level))

/-! ## Threads -/

structure Delivery where
  record : LogRecordView
  logger : LoggerId
  text : Bytes
  index : Nat

def Delivery.next (d : Delivery) : Delivery := { d with index := d.index + 1 }

/-- What a thread does next. A visited appender comes with the place in the loop that called it, if there is one. -/
inductive Pc where
  | idle
  | readLevel (record : LogRecordView) (logger : LoggerId)
  | askLevel (level : LogLevel) (logger : LoggerId)
  | lockShared (task : Task) (logger : LoggerId)
  | testAppenders (task : Task) (logger : LoggerId)
  | unlockEmpty (task : Task) (logger : LoggerId)
  | toRoot (task : Task) (logger : LoggerId)
  | format (record : LogRecordView) (logger : LoggerId)
  | loop (d : Delivery)
  | readAppenderLevel (d : Delivery) (appender : AppenderId)
  | lockAppender (d : Delivery) (appender : AppenderId)
  | write (d : Delivery) (appender : AppenderId) (written : Nat)
  | flushFatal (d : Delivery) (appender : AppenderId)
  | unlockAppender (d : Delivery) (appender : AppenderId)
  | visitLoop (kind : Visit) (logger : LoggerId) (index : Nat)
  | visitLock (kind : Visit) (appender : AppenderId) (caller : Option (LoggerId × Nat))
  | visit (kind : Visit) (appender : AppenderId) (caller : Option (LoggerId × Nat))
  | visitUnlock (kind : Visit) (appender : AppenderId) (caller : Option (LoggerId × Nat))
  | unlockShared (logger : LoggerId)
  | unlockFound (logger : LoggerId)
  | answer (shouldLog : Bool)
  | lockFormatter (logger : LoggerId)
  | getFormatter (logger : LoggerId)
  | lock (c : Config)
  | apply (c : Config)
  | unlock (c : Config)
  | setLevel (logger : LoggerId) (level : LogLevel)
  | setAppenderLevel (appender : AppenderId) (level : LogLevel)
  | ret

/-- `submit` and `shouldLog` read the level of the logger before they take the lock, `flush` and `sync` do not. -/
def Task.enter (logger : LoggerId) : Task → Pc
  | submit record => .readLevel record logger
  | shouldLog level => .askLevel level logger
  | visit kind => .lockShared (.visit kind) logger

def Task.perform (logger : LoggerId) : Task → Pc
  | submit record => .format record logger
  | shouldLog _ => .unlockFound logger
  | visit kind => .visitLoop kind logger 0

/-- Where the chain of root loggers ends. -/
def Task.leave : Task → Pc
  | shouldLog _ => .answer false
  | _ => .ret

def Call.enter : Call → Pc
  | route task logger => task.enter logger
  | visitAppender kind appender => .visitLock kind appender none
  | configure c => .lock c
  | setLevel logger level => .setLevel logger level
  | setAppenderLevel appender level => .setAppenderLevel appender level
  | getFormatter logger => .lockFormatter logger

/-- `cache` is what formatting keeps in the thread. `calls` counts the calls made; no step depends on it. -/
structure Local (τ : Type) where
  pc : Pc
  cache : τ
  calls : Nat

def Local.goto {τ : Type} (l : Local τ) (pc : Pc) : Local τ := { l with pc }

section

variable {T τ : Type} (render : Formatter → LogRecordView → τ → Bytes × τ)

/-- The next operation of a thread that is in a call, and the thread after it. -/
def next (s : Shared T) (l : Local τ) : Option (Op × Local τ) :=
  match l.pc with
  | .idle => none
  | .readLevel record logger =>
      if record.level.toU8 < (s.loggers logger).level.toU8 then some (.silent, l.goto .ret)
      else some (.silent, l.goto (.lockShared (.submit record) logger))
  | .askLevel level logger =>
      if level.toU8 < (s.loggers logger).level.toU8 then some (.silent, l.goto (.answer false))
      else some (.silent, l.goto (.lockShared (.shouldLog level) logger))
  | .lockShared task logger => some (.lockShared logger, l.goto (.testAppenders task logger))
  | .testAppenders task logger =>
      let appenders := (s.loggers logger).appenders
      if appenders.isEmpty then some (.test task logger appenders, l.goto (.unlockEmpty task logger))
      else some (.test task logger appenders, l.goto (task.perform logger))
  | .unlockEmpty task logger => some (.unlockShared logger, l.goto (.toRoot task logger))
  | .toRoot task logger =>
      match (s.loggers logger).root with
      | some root => some (.silent, l.goto (task.enter root))
      | none => some (.silent, l.goto task.leave)
  | .format record logger =>
      let formatter := (s.loggers logger).formatter
      let (text, cache) := render formatter record l.cache
      some (.format ⟨logger, formatter, (s.loggers logger).appenders, record, text⟩,
        { l with pc := .loop ⟨record, logger, text, 0⟩, cache })
  | .loop d =>
      match (s.loggers d.logger).appenders[d.index]? with
      | some appender => some (.silent, l.goto (.readAppenderLevel d appender))
      | none => some (.silent, l.goto (.unlockShared d.logger))
  | .readAppenderLevel d appender =>
      if d.record.level.toU8 < (s.appenders appender).level.toU8 then
        some (.check ⟨d.logger, appender, false⟩, l.goto (.loop d.next))
      else some (.check ⟨d.logger, appender, true⟩, l.goto (.lockAppender d appender))
  | .lockAppender d appender => some (.lock appender, l.goto (.write d appender 0))
  | .write d appender written =>
      match d.text[written]? with
      | some byte => some (.write d.logger appender byte, l.goto (.write d appender (written + 1)))
      | none =>
          if d.record.level = .fatal then some (.silent, l.goto (.flushFatal d appender))
          else some (.silent, l.goto (.unlockAppender d appender))
  | .flushFatal d appender => some (.silent, l.goto (.unlockAppender d appender))
  | .unlockAppender d appender => some (.appended ⟨d.logger, appender, d.text⟩, l.goto (.loop d.next))
  | .visitLoop kind logger index =>
      match (s.loggers logger).appenders[index]? with
      | some appender => some (.silent, l.goto (.visitLock kind appender (some (logger, index))))
      | none => some (.silent, l.goto (.unlockShared logger))
  | .visitLock kind appender caller => some (.lock appender, l.goto (.visit kind appender caller))
  | .visit kind appender caller => some (.silent, l.goto (.visitUnlock kind appender caller))
  | .visitUnlock kind appender caller =>
      match caller with
      | some (logger, index) => some (.unlock appender, l.goto (.visitLoop kind logger (index + 1)))
      | none => some (.unlock appender, l.goto .ret)
  | .unlockShared logger => some (.unlockShared logger, l.goto .ret)
  | .unlockFound logger => some (.unlockShared logger, l.goto (.answer true))
  | .answer shouldLog => some (.answer shouldLog, l.goto .ret)
  | .lockFormatter logger => some (.lockShared logger, l.goto (.getFormatter logger))
  | .getFormatter logger =>
      some (.getFormatter logger (s.loggers logger).formatter, l.goto (.unlockShared logger))
  | .lock c => some (.lockExclusive c.logger, l.goto (.apply c))
  | .apply c => some (.apply c, l.goto (.unlock c))
  | .unlock c => some (.unlockExclusive c.logger, l.goto .ret)
  | .setLevel logger level => some (.setLevel logger level, l.goto .ret)
  | .setAppenderLevel appender level => some (.setAppenderLevel appender level, l.goto .ret)
  | .ret => some (.ret, l.goto .idle)

structure Event where
  call : Nat
  op : Op
  deriving DecidableEq

variable [DecidableEq T]

/-- A thread that is in no call makes any call; one that is in a call goes on with it. -/
inductive Move (t : T) (s : Shared T) (l : Local τ) : Event → Shared T → Local τ → Prop where
  | call (call : Call) : l.pc = .idle →
      Move t s l ⟨l.calls + 1, .call call⟩ s { l with pc := call.enter, calls := l.calls + 1 }
  | next {op l' s'} : next render s l = some (op, l') → op.run t s = some s' →
      Move t s l ⟨l.calls, op⟩ s' l'

/-- `Move` as a function of what a thread in no call is told to call. -/
def move (t : T) (s : Shared T) (l : Local τ) (call : Call) : Option (Event × Shared T × Local τ) :=
  match next render s l with
  | some (op, l') => (op.run t s).map fun s' => (⟨l.calls, op⟩, s', l')
  | none => some (⟨l.calls + 1, .call call⟩, s, { l with pc := call.enter, calls := l.calls + 1 })

abbrev Process (T τ : Type) := Interleaving T (Shared T) (Local τ)

abbrev Step : Process T τ → T × Event → Process T τ → Prop := Interleaving.Step (Move render)

end

/-- Loggers and appenders are configured in any way; nothing has been logged. -/
structure Init {T τ : Type} (s : Process T τ) : Prop where
  stream : ∀ appender, (s.shared.appenders appender).stream = []
  loggerMutex : ∀ logger, s.shared.loggerMutex logger = .free
  appenderMutex : ∀ appender, s.shared.appenderMutex appender = .free
  idle : ∀ t, (s.threads t).pc = .idle
  calls : ∀ t, (s.threads t).calls = 0

/-! ## The step as a function -/

section

variable {T τ : Type} {render : Formatter → LogRecordView → τ → Bytes × τ} {s s' : Shared T} {l l' : Local τ}

theorem next_eq_none_iff : next render s l = none ↔ l.pc = .idle := by
  obtain ⟨pc, cache, calls⟩ := l
  cases pc <;> simp only [next]
  case readLevel | askLevel | testAppenders | toRoot | loop | readAppenderLevel | visitLoop | visitUnlock =>
      split <;> simp
  case write =>
      split
      · simp
      · split <;> simp
  all_goals simp

theorem move_iff [DecidableEq T] {t : T} {e : Event} :
    Move render t s l e s' l' ↔ ∃ call, move render t s l call = some (e, s', l') := by
  constructor
  · intro h
    cases h with
    | call call hidle => exact ⟨call, by simp [move, next_eq_none_iff.mpr hidle]⟩
    | next hnext hrun => exact ⟨.setLevel 0 .debug, by simp [move, hnext, hrun]⟩
  · rintro ⟨call, h⟩
    unfold move at h
    split at h
    · rename_i hnext
      obtain ⟨s'', hrun, heq⟩ := Option.map_eq_some_iff.mp h
      cases heq
      exact .next hnext hrun
    · rename_i hnext
      cases h
      exact .call call (next_eq_none_iff.mp hnext)

end

end Threads

end Pans
