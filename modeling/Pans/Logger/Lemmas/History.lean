import Mathlib.Data.List.Count
import Pans.Lib.Run
import Pans.Logger.History
import Pans.Logger.Lemmas.Graph

/-!
# The loggers agree with the history

The invariant of sequential runs: levels, formatters, appender lists and streams are what the operations so far
make them.
-/

namespace Pans

open LogSystem

/-! ## One more operation -/

namespace History

theorem level_cons (op : Op) (history : List Op) (logger : LoggerId) :
    level (op :: history) logger = (setsLevel logger op).getD (level history logger) := by
  rw [level, List.findSome?_cons]
  cases setsLevel logger op <;> rfl

theorem formatter_cons (op : Op) (history : List Op) (logger : LoggerId) :
    formatter (op :: history) logger = (setsFormatter logger op).getD (formatter history logger) := by
  rw [formatter, List.findSome?_cons]
  cases setsFormatter logger op <;> rfl

theorem appenderLevel_cons (op : Op) (history : List Op) (appender : AppenderId) :
    appenderLevel (op :: history) appender = (setsAppenderLevel appender op).getD (appenderLevel history appender) := by
  rw [appenderLevel, List.findSome?_cons]
  cases setsAppenderLevel appender op <;> rfl

theorem registrations_cons (op : Op) (history : List Op) (logger : LoggerId) (appender : AppenderId) :
    registrations (op :: history) logger appender =
      if drops logger appender op then 0
      else registrations history logger appender + if adds logger appender op then 1 else 0 := by
  rw [registrations, List.cons_append, List.takeWhile_cons]
  cases drops logger appender op with
  | true => rfl
  | false => simp [registrations, List.countP_cons]

inductive Configures (logger : LoggerId) : Op → Prop where
  | setLevel (level) : Configures logger (.setLevel logger level)
  | setFormatter (formatter) : Configures logger (.setFormatter logger formatter)
  | addAppender (appender) : Configures logger (.addAppender logger appender)
  | removeAppender (appender) : Configures logger (.removeAppender logger appender)
  | clearAppenders : Configures logger (.clearAppenders logger)

section

variable {logger logger' : LoggerId} {op : Op} (hop : Configures logger op) (history : List Op)

include hop

theorem Configures.level (h : logger' ≠ logger) : level (op :: history) logger' = level history logger' := by
  rw [level_cons]
  cases hop <;> simp [setsLevel, h.symm]

theorem Configures.formatter (h : logger' ≠ logger) :
    formatter (op :: history) logger' = formatter history logger' := by
  rw [formatter_cons]
  cases hop <;> simp [setsFormatter, h.symm]

theorem Configures.registrations (h : logger' ≠ logger) (appender : AppenderId) :
    registrations (op :: history) logger' appender = registrations history logger' appender := by
  rw [registrations_cons]
  cases hop <;> simp [drops, adds, h.symm]

theorem Configures.appenderLevel (appender : AppenderId) :
    appenderLevel (op :: history) appender = appenderLevel history appender := by
  cases hop <;> rfl

theorem Configures.names : names (op :: history) = names history := by
  cases hop <;> rfl

theorem Configures.stream (render : Formatter → LogRecordView → Bytes) (appender : AppenderId) :
    stream render appender (op :: history) = stream render appender history := by
  cases hop <;> rfl

end

end History

/-! ## The invariant -/

/-- The state is the one that the history describes. -/
structure Agrees (render : Formatter → LogRecordView → Bytes) (history : List Op) (sys : LogSystem) : Prop where
  level : ∀ logger, (sys.loggers logger).level = History.level history logger
  formatter : ∀ logger, (sys.loggers logger).formatter = History.formatter history logger
  registrations : ∀ logger appender,
    (sys.loggers logger).appenders.count appender = History.registrations history logger appender
  appenderLevel : ∀ appender, (sys.appenders appender).level = History.appenderLevel history appender
  fresh : ∀ logger, sys.next ≤ logger → sys.loggers logger = Logger.Impl.new []
  name : ∀ logger, logger < sys.next → (sys.loggers logger).name = History.name history logger
  root : ∀ logger, logger < sys.next → (sys.loggers logger).root = if logger = root then none else some root
  registry : sys.registry = (History.names history).zipIdx
  next : sys.next = (History.names history).length
  stream : ∀ appender, (sys.appenders appender).stream = History.stream render appender history

section

variable {render : Formatter → LogRecordView → Bytes} {history : List Op} {sys : LogSystem}

theorem initial_root : LogSystem.initial.loggers root = (Logger.Impl.new (ascii "root")).addAppender stdout := by
  simp [LogSystem.initial]

theorem initial_other {logger : LoggerId} (h : logger ≠ root) :
    LogSystem.initial.loggers logger = Logger.Impl.new [] := by
  simp [LogSystem.initial, h]

theorem onLogger_self (logger : LoggerId) (f : Logger.Impl → Logger.Impl) :
    (sys.onLogger logger f).loggers logger = f (sys.loggers logger) := by
  simp [LogSystem.onLogger]

theorem onLogger_other {logger logger' : LoggerId} (f : Logger.Impl → Logger.Impl) (h : logger' ≠ logger) :
    (sys.onLogger logger f).loggers logger' = sys.loggers logger' := by
  simp [LogSystem.onLogger, h]

theorem agrees_initial : Agrees render [] LogSystem.initial where
  level := by
    intro logger
    by_cases h : logger = root
    · rw [h, initial_root]
      rfl
    · rw [initial_other h]
      rfl
  formatter := by
    intro logger
    by_cases h : logger = root
    · rw [h, initial_root]
      rfl
    · rw [initial_other h]
      rfl
  registrations := by
    intro logger appender
    by_cases h : logger = root
    · rw [h, initial_root]
      by_cases ha : stdout = appender
      · simp [Logger.Members.addAppender, Logger.Impl.new, History.registrations, History.constructed, History.drops,
          History.adds, ha]
      · simp [Logger.Members.addAppender, Logger.Impl.new, History.registrations, History.constructed, History.drops,
          History.adds, ha]
    · rw [initial_other h]
      simp [Logger.Impl.new, History.registrations, History.constructed, History.drops, History.adds, Ne.symm h]
  appenderLevel := fun _ => rfl
  fresh := fun _ hlogger => initial_other (Nat.ne_of_gt hlogger)
  name := by
    intro logger hlogger
    obtain rfl : logger = root := Nat.lt_one_iff.mp hlogger
    rw [initial_root]
    rfl
  root := by
    intro logger hlogger
    obtain rfl : logger = root := Nat.lt_one_iff.mp hlogger
    rw [initial_root]
    rfl
  registry := rfl
  next := rfl
  stream := fun _ => rfl

/-! ## Configuration -/

theorem Agrees.onLogger (h : Agrees render history sys) {op : Op} {logger : LoggerId} {f : Logger.Impl → Logger.Impl}
    (hlogger : logger < sys.next) (hop : History.Configures logger op)
    (hname : (f (sys.loggers logger)).name = (sys.loggers logger).name)
    (hroot : (f (sys.loggers logger)).root = (sys.loggers logger).root)
    (hlevel : (f (sys.loggers logger)).level = History.level (op :: history) logger)
    (hformatter : (f (sys.loggers logger)).formatter = History.formatter (op :: history) logger)
    (hregistrations : ∀ appender,
      (f (sys.loggers logger)).appenders.count appender = History.registrations (op :: history) logger appender) :
    Agrees render (op :: history) (sys.onLogger logger f) where
  level := by
    intro logger'
    by_cases he : logger' = logger
    · rw [he, onLogger_self, hlevel]
    · rw [onLogger_other f he, hop.level history he, h.level]
  formatter := by
    intro logger'
    by_cases he : logger' = logger
    · rw [he, onLogger_self, hformatter]
    · rw [onLogger_other f he, hop.formatter history he, h.formatter]
  registrations := by
    intro logger' appender
    by_cases he : logger' = logger
    · rw [he, onLogger_self, hregistrations]
    · rw [onLogger_other f he, hop.registrations history he, h.registrations]
  appenderLevel := fun appender => (h.appenderLevel appender).trans (hop.appenderLevel history appender).symm
  fresh := by
    intro logger' hlogger'
    have he : logger' ≠ logger := Nat.ne_of_gt (Nat.lt_of_lt_of_le hlogger hlogger')
    rw [onLogger_other f he]
    exact h.fresh logger' hlogger'
  name := by
    intro logger' hlogger'
    rw [History.name, hop.names, ← History.name, ← h.name logger' hlogger']
    by_cases he : logger' = logger
    · rw [he, onLogger_self, hname]
    · rw [onLogger_other f he]
  root := by
    intro logger' hlogger'
    rw [← h.root logger' hlogger']
    by_cases he : logger' = logger
    · rw [he, onLogger_self, hroot]
    · rw [onLogger_other f he]
  registry := h.registry.trans (by rw [hop.names])
  next := h.next.trans (by rw [hop.names])
  stream := fun appender => (h.stream appender).trans (hop.stream history render appender).symm

section

variable {logger : LoggerId} (h : Agrees render history sys) (hlogger : logger < sys.next)

include h hlogger

theorem Agrees.setLevel (level : LogLevel) :
    Agrees render (.setLevel logger level :: history) (sys.onLogger logger (·.setLevel level)) := by
  apply h.onLogger hlogger (.setLevel level) rfl rfl
  · simp [History.level_cons, History.setsLevel, Logger.Members.setLevel]
  · exact h.formatter logger
  · intro appender
    simp [History.registrations_cons, History.drops, History.adds, Logger.Members.setLevel, h.registrations]

theorem Agrees.setFormatter (formatter : Formatter) :
    Agrees render (.setFormatter logger formatter :: history) (sys.onLogger logger (·.setFormatter formatter)) := by
  apply h.onLogger hlogger (.setFormatter formatter) rfl rfl
  · exact h.level logger
  · simp [History.formatter_cons, History.setsFormatter, Logger.Members.setFormatter]
  · intro appender
    simp [History.registrations_cons, History.drops, History.adds, Logger.Members.setFormatter, h.registrations]

theorem Agrees.addAppender (appender : AppenderId) :
    Agrees render (.addAppender logger appender :: history) (sys.onLogger logger (·.addAppender appender)) := by
  apply h.onLogger hlogger (.addAppender appender) rfl rfl
  · exact h.level logger
  · exact h.formatter logger
  · intro appender'
    simp [History.registrations_cons, History.drops, History.adds, Logger.Members.addAppender, List.count_append,
      List.count_singleton, h.registrations]

theorem Agrees.removeAppender (appender : AppenderId) :
    Agrees render (.removeAppender logger appender :: history) (sys.onLogger logger (·.removeAppender appender)) := by
  apply h.onLogger hlogger (.removeAppender appender) rfl rfl
  · exact h.level logger
  · exact h.formatter logger
  · intro appender'
    rw [History.registrations_cons]
    by_cases he : appender = appender'
    · subst he
      simp [History.drops, Logger.Members.removeAppender, List.count_eq_zero]
    · simp [History.drops, History.adds, he, Logger.Members.removeAppender, ← h.registrations,
        List.count_filter, Ne.symm he]

theorem Agrees.clearAppenders :
    Agrees render (.clearAppenders logger :: history) (sys.onLogger logger Logger.Members.clearAppenders) := by
  apply h.onLogger hlogger .clearAppenders rfl rfl
  · exact h.level logger
  · exact h.formatter logger
  · intro appender
    simp [History.registrations_cons, History.drops, Logger.Members.clearAppenders]

end

theorem Agrees.setAppenderLevel (h : Agrees render history sys) (appender : AppenderId) (level : LogLevel) :
    Agrees render (.setAppenderLevel appender level :: history) (sys.onAppender appender (·.setLevel level)) where
  level := h.level
  formatter := h.formatter
  registrations := by
    intro logger appender'
    simp [History.registrations_cons, History.drops, History.adds, ← h.registrations, LogSystem.onAppender]
  appenderLevel := by
    intro appender'
    rw [History.appenderLevel_cons, LogSystem.onAppender]
    by_cases he : appender' = appender
    · subst he
      simp [History.setsAppenderLevel, Appender.Impl.setLevel]
    · simp [History.setsAppenderLevel, he, Ne.symm he, h.appenderLevel]
  fresh := h.fresh
  name := h.name
  root := h.root
  registry := h.registry
  next := h.next
  stream := by
    intro appender'
    refine Eq.trans ?_ (h.stream appender')
    rw [LogSystem.onAppender]
    by_cases he : appender' = appender
    · subst he
      simp [Appender.Impl.setLevel]
    · simp [he]

/-! ## The registry -/

theorem lookup_zipIdx_eq_none {names : List Bytes} {k : Nat} {name : Bytes} :
    (names.zipIdx k).lookup name = none ↔ name ∉ names := by
  induction names generalizing k with
  | nil => simp
  | cons first names ih =>
      rw [List.zipIdx_cons, List.lookup_cons, List.mem_cons, not_or]
      by_cases he : name = first
      · simp [he]
      · have hbeq : (name == first) = false := by simpa using he
        simp only [hbeq, he, not_false_eq_true, true_and]
        exact ih

theorem History.names_length_pos (history : List Op) : 0 < (History.names history).length := by
  induction history with
  | nil => exact Nat.one_pos
  | cons op history ih =>
      cases op with
      | getLogger name =>
          rw [History.names]
          split
          · exact ih
          · simp
      | _ => exact ih

theorem Agrees.root_lt (h : Agrees render history sys) : LogSystem.root < sys.next := by
  rw [h.next]
  exact History.names_length_pos history

section

variable (h : Agrees render history sys) (name : Bytes)

theorem History.registrations_getLogger (logger : LoggerId) (appender : AppenderId) :
    History.registrations (.getLogger name :: history) logger appender =
      History.registrations history logger appender := by
  simp [History.registrations_cons, History.drops, History.adds]

include h

theorem Agrees.getLogger_known (hmem : name ∈ History.names history) :
    Agrees render (.getLogger name :: history) sys := by
  have hnames : History.names (.getLogger name :: history) = History.names history := by
    rw [History.names, if_pos hmem]
  exact {
    h with
    registrations := fun logger appender =>
      (h.registrations logger appender).trans (History.registrations_getLogger name logger appender).symm
    name := fun logger hlogger => by rw [History.name, hnames]; exact h.name logger hlogger
    registry := h.registry.trans (by rw [hnames])
    next := h.next.trans (by rw [hnames]) }

theorem Agrees.getLogger_new (hmem : name ∉ History.names history) :
    Agrees render (.getLogger name :: history)
      { sys with
        loggers := Function.update sys.loggers sys.next ((Logger.Impl.new name).setRoot LogSystem.root)
        registry := sys.registry ++ [(name, sys.next)]
        next := sys.next + 1 } := by
  have hnames : History.names (.getLogger name :: history) = History.names history ++ [name] := by
    rw [History.names, if_neg hmem]
  have hself : Function.update sys.loggers sys.next ((Logger.Impl.new name).setRoot LogSystem.root) sys.next =
      (Logger.Impl.new name).setRoot LogSystem.root := Function.update_self ..
  have hother : ∀ logger, logger ≠ sys.next →
      Function.update sys.loggers sys.next ((Logger.Impl.new name).setRoot LogSystem.root) logger = sys.loggers logger :=
    fun logger hne => Function.update_of_ne hne ..
  -- The address was unused, and there the loggers already had the values of a new logger.
  have hsame : ∀ logger,
      let this := Function.update sys.loggers sys.next ((Logger.Impl.new name).setRoot LogSystem.root) logger
      this.level = (sys.loggers logger).level ∧ this.formatter = (sys.loggers logger).formatter ∧
        this.appenders = (sys.loggers logger).appenders := by
    intro logger
    by_cases he : logger = sys.next
    · rw [he, hself, h.fresh sys.next (Nat.le_refl _)]
      exact ⟨rfl, rfl, rfl⟩
    · rw [hother logger he]
      exact ⟨rfl, rfl, rfl⟩
  exact {
    level := fun logger => (hsame logger).1.trans (h.level logger)
    formatter := fun logger => (hsame logger).2.1.trans (h.formatter logger)
    registrations := by
      intro logger appender
      rw [History.registrations_getLogger, ← h.registrations, ← (hsame logger).2.2]
    appenderLevel := h.appenderLevel
    fresh := by
      intro logger hlogger
      exact (hother logger (Nat.ne_of_gt hlogger)).trans (h.fresh logger (Nat.le_of_succ_le hlogger))
    name := by
      intro logger hlogger
      rw [History.name, hnames]
      rcases Nat.lt_succ_iff_lt_or_eq.mp hlogger with hlt | rfl
      · have hlength : logger < (History.names history).length := h.next ▸ hlt
        rw [List.getElem?_append_left hlength]
        exact (congrArg Logger.Members.name (hother logger (Nat.ne_of_lt hlt))).trans (h.name logger hlt)
      · refine (congrArg Logger.Members.name hself).trans ?_
        rw [h.next, List.getElem?_concat_length]
        rfl
    root := by
      intro logger hlogger
      rcases Nat.lt_succ_iff_lt_or_eq.mp hlogger with hlt | rfl
      · exact (congrArg Logger.Members.root (hother logger (Nat.ne_of_lt hlt))).trans (h.root logger hlt)
      · refine (congrArg Logger.Members.root hself).trans ?_
        rw [if_neg (Nat.ne_of_gt h.root_lt)]
        rfl
    registry := by
      rw [hnames, List.zipIdx_append, ← h.registry, Nat.zero_add, ← h.next]
      rfl
    next := by
      rw [hnames, List.length_append, ← h.next]
      rfl
    stream := h.stream }

theorem Agrees.getLogger (hname : name ≠ []) :
    Agrees render (.getLogger name :: history) (sys.getLogger name).1 := by
  rw [LogSystem.getLogger, if_neg (by simpa using hname)]
  cases hlookup : sys.registry.lookup name with
  | some logger =>
      refine h.getLogger_known name ?_
      by_contra hno
      rw [h.registry, lookup_zipIdx_eq_none.mpr hno] at hlookup
      cases hlookup
  | none =>
      rw [h.registry] at hlookup
      exact h.getLogger_new name (lookup_zipIdx_eq_none.mp hlookup)

end

/-! ## Records -/

theorem foldl_append (appenders : List AppenderId) (level : LogLevel) (text : Bytes)
    (impls : AppenderId → Appender.Impl) (appender : AppenderId) :
    let impls' := appenders.foldl (fun impls a => Function.update impls a ((impls a).append level text)) impls
    (impls' appender).level = (impls appender).level ∧
      (impls' appender).stream = (impls appender).stream ++
        (List.replicate (if level.toU8 < (impls appender).level.toU8 then 0 else appenders.count appender)
          text).flatten := by
  induction appenders generalizing impls with
  | nil => simp
  | cons first appenders ih =>
      obtain ⟨hlevel, hstream⟩ := ih (Function.update impls first ((impls first).append level text))
      simp only [List.foldl_cons]
      by_cases he : appender = first
      · subst he
        refine ⟨by simpa using hlevel, ?_⟩
        rw [hstream]
        by_cases hlow : level.toU8 < (impls appender).level.toU8
        · simp [hlow]
        · simp [hlow, List.replicate_succ]
      · refine ⟨by simpa [he] using hlevel, ?_⟩
        rw [hstream]
        simp [he, Ne.symm he]

def rootChain (logger : LoggerId) : List LoggerId := if logger = root then [root] else [logger, root]

theorem rootChain_length (logger : LoggerId) : (rootChain logger).length ≤ 2 := by
  unfold rootChain
  split <;> simp

theorem Agrees.rootChain (h : Agrees render history sys) {logger : LoggerId} (hlogger : logger < sys.next) :
    sys.loggers.RootChain (some logger) (rootChain logger) := by
  have hroot : (sys.loggers LogSystem.root).root = none := by
    rw [h.root _ h.root_lt, if_pos rfl]
  have hend : sys.loggers.RootChain (some LogSystem.root) [LogSystem.root] := by
    apply Loggers.RootChain.link
    rw [hroot]
    exact .null
  unfold Pans.rootChain
  split
  · rename_i he
    rw [he]
    exact hend
  · rename_i he
    apply Loggers.RootChain.link
    rw [h.root logger hlogger, if_neg he]
    exact hend

theorem Agrees.appenders_eq_nil (h : Agrees render history sys) (logger : LoggerId) :
    (sys.loggers logger).appenders = [] ↔ ∀ appender, History.registrations history logger appender = 0 := by
  simp only [← h.registrations, List.count_eq_zero, List.eq_nil_iff_forall_not_mem]

theorem Agrees.effective (h : Agrees render history sys) (logger : LoggerId) :
    History.effective history logger =
      if (sys.loggers logger).appenders = [] then LogSystem.root else logger := by
  rw [History.effective]
  by_cases hown : (sys.loggers logger).appenders = []
  · rw [if_pos hown, if_neg]
    simpa using (h.appenders_eq_nil logger).mp hown
  · rw [if_neg hown, if_pos]
    simpa using mt (h.appenders_eq_nil logger).mpr hown

/-- Who delivers the records of a logger, and which levels get there. -/
theorem Agrees.route (h : Agrees render history sys) (logger : LoggerId) (level : LogLevel) :
    (sys.loggers.target (Pans.rootChain logger) =
      if (sys.loggers (History.effective history logger)).appenders = [] then none
      else some (History.effective history logger)) ∧
    (sys.loggers.Admits (Pans.rootChain logger) level ↔
      ¬(level.toU8 < (History.level history logger).toU8 ∨
        level.toU8 < (History.level history (History.effective history logger)).toU8)) := by
  rw [h.effective, ← h.level, ← h.level, Pans.rootChain]
  by_cases he : logger = LogSystem.root
  · rw [if_pos he, he, Loggers.target_singleton, Loggers.admits_singleton, ite_self, or_self]
    exact ⟨rfl, Iff.rfl⟩
  · rw [if_neg he]
    by_cases hown : (sys.loggers logger).appenders = []
    · have hempty := List.isEmpty_iff.mpr hown
      rw [if_pos hown, Loggers.target_root hempty, Loggers.admits_root hempty, Loggers.target_singleton,
        Loggers.admits_singleton, not_or]
      exact ⟨rfl, Iff.rfl⟩
    · have hempty : (sys.loggers logger).appenders.isEmpty = false := by simpa using hown
      rw [if_neg hown, if_neg hown, Loggers.target_own hempty, Loggers.admits_own hempty, or_self]
      exact ⟨rfl, Iff.rfl⟩

theorem Agrees.submitted (h : Agrees render history sys) {logger : LoggerId} (hlogger : logger < sys.next)
    {context : LogContext} {level : LogLevel} {message : Bytes} {record : LogRecordView}
    {impls : AppenderId → Appender.Impl}
    (hrecord : context.getRecord level (sys.loggers logger).name message = record)
    (hlevel : ∀ appender, (impls appender).level = (sys.appenders appender).level)
    (hstream : ∀ appender, (impls appender).stream = (sys.appenders appender).stream ++
      History.delivered render history logger record appender) :
    Agrees render (.log logger context level message :: history) { sys with appenders := impls } where
  level := h.level
  formatter := h.formatter
  registrations := by
    intro logger' appender
    simp [History.registrations_cons, History.drops, History.adds, ← h.registrations]
  appenderLevel := fun appender => (hlevel appender).trans (h.appenderLevel appender)
  fresh := h.fresh
  name := h.name
  root := h.root
  registry := h.registry
  next := h.next
  stream := by
    intro appender
    rw [hstream, h.stream, ← hrecord, h.name logger hlogger]
    rfl

theorem Agrees.log (h : Agrees render history sys) {logger : LoggerId} (hlogger : logger < sys.next)
    (context : LogContext) (level : LogLevel) (message : Bytes) :
    ∃ sys', sys.log render logger context level message = some sys' ∧
      Agrees render (.log logger context level message :: history) sys' := by
  rw [LogSystem.log]
  generalize hrecord : context.getRecord level (sys.loggers logger).name message = record
  obtain ⟨htarget, hadmits⟩ := h.route logger record.level
  simp only [LogSystem.submitRecord, Loggers.submit_eq (h.rootChain hlogger) (rootChain_length logger), htarget]
  by_cases hown : (sys.loggers (History.effective history logger)).appenders = []
  · rw [if_pos hown]
    refine ⟨_, rfl, h.submitted hlogger hrecord (fun _ => rfl) fun appender => ?_⟩
    have hnone := (h.appenders_eq_nil _).mp hown appender
    simp [History.delivered, hnone]
  · simp only [if_neg hown]
    by_cases hlow : record.level.toU8 < (History.level history logger).toU8 ∨
        record.level.toU8 < (History.level history (History.effective history logger)).toU8
    · rw [if_neg fun hyes => hadmits.mp hyes hlow]
      refine ⟨_, rfl, h.submitted hlogger hrecord (fun _ => rfl) fun appender => ?_⟩
      simp only [History.delivered, if_pos hlow, List.append_nil]
    · rw [if_pos (hadmits.mpr hlow)]
      refine ⟨_, rfl, h.submitted hlogger hrecord (fun appender => (foldl_append _ _ _ _ appender).1) fun appender => ?_⟩
      rw [(foldl_append _ _ _ _ appender).2]
      simp only [History.delivered, if_neg hlow, h.appenderLevel, h.registrations, h.formatter]

theorem Agrees.step (h : Agrees render history sys) {op : Op} {sys' : LogSystem}
    (hstep : LogSystem.Step render sys op sys') : Agrees render (op :: history) sys' := by
  obtain ⟨hcallable, hperform⟩ := hstep
  cases op with
  | getLogger name =>
      cases hperform
      exact h.getLogger name hcallable
  | setLevel logger level =>
      cases hperform
      exact h.setLevel hcallable level
  | setFormatter logger formatter =>
      cases hperform
      exact h.setFormatter hcallable formatter
  | addAppender logger appender =>
      cases hperform
      exact h.addAppender hcallable appender
  | removeAppender logger appender =>
      cases hperform
      exact h.removeAppender hcallable appender
  | clearAppenders logger =>
      cases hperform
      exact h.clearAppenders hcallable
  | setAppenderLevel appender level =>
      cases hperform
      exact h.setAppenderLevel appender level
  | log logger context level message =>
      obtain ⟨sys'', hlog, hagrees⟩ := h.log hcallable context level message
      cases hlog.symm.trans hperform
      exact hagrees

theorem agrees_of_run (h : Run (LogSystem.Step render) (· = LogSystem.initial) history sys) :
    Agrees render history sys := by
  refine h.invariant (I := Agrees render) ?_ fun _ _ _ _ h hstep => h.step hstep
  rintro _ rfl
  exact agrees_initial

end

end Pans
