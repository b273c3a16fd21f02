import Pans.Formatter.Lemmas.Construct
import Pans.Formatter.Lemmas.Parse
import Pans.Logger.Calls
import Pans.Logger.Lemmas.History

/-!
# The calls keep their pointers

Every run of calls ends in a state that a run of operations has, in which no pointer is null. A call that is refused
is at most some FATAL records of the root logger there.
-/

namespace Pans

open LogSystem

/-! ## Members without null pointers -/

theorem foldl_follow {S : Type} (call : AppenderId → S → S) (appenders : List AppenderId) (s : S) :
    (appenders.map some).foldl (fun s appender => follow call appender s) (some s) =
      some (appenders.foldl (fun s appender => call appender s) s) := by
  induction appenders generalizing s with
  | nil => rfl
  | cons appender appenders ih => exact ih (call appender s)

namespace Logger.Impl

/-- The members of a logger that has no null pointers. -/
def nullable (this : Logger.Impl) : Logger.Nullable where
  name := this.name
  level := this.level
  formatter := some this.formatter
  appenders := this.appenders.map some
  root := this.root

section

variable {S : Type} (this : Logger.Impl)

theorem nullable_isEmpty : this.nullable.appenders.isEmpty = this.appenders.isEmpty := by
  rw [nullable, List.isEmpty_map]

theorem nullable_shouldLog (rootShouldLog : LoggerId → LogLevel → Option Bool) (level : LogLevel) :
    this.nullable.shouldLog rootShouldLog level = this.shouldLog rootShouldLog level := by
  rw [Logger.Members.shouldLog, nullable_isEmpty]
  rfl

theorem nullable_submit (rootSubmit : LoggerId → LogRecordView → (AppenderId → Appender.Impl) →
      Option (AppenderId → Appender.Impl)) (render : Formatter → LogRecordView → Bytes) (record : LogRecordView)
    (s : AppenderId → Appender.Impl) :
    this.nullable.submit rootSubmit (fun F record appenders => F.map fun F => (appenders, render F record))
        appendUnlessNull record s =
      this.submit rootSubmit (fun F record appenders => some (appenders, render F record))
        (fun appender level text appenders =>
          Function.update appenders appender ((appenders appender).append level text)) record s := by
  rw [Logger.Members.submit, Logger.Members.submit, nullable_isEmpty]
  simp only [nullable, Option.map_some, List.foldl_map]
  rfl

theorem nullable_flush {rootFlush : LoggerId → S → Option S} {rootFlush' : LoggerId → Option S → Option (Option S)}
    (hroot : ∀ root s, rootFlush' root (some s) = (rootFlush root s).map some) (flushAppender : AppenderId → S → S)
    (s : S) :
    this.nullable.flush rootFlush' (follow flushAppender) (some s) =
      (this.flush rootFlush flushAppender s).map some := by
  rw [Logger.Members.flush, Logger.Members.flush, nullable_isEmpty]
  by_cases hown : this.appenders.isEmpty = true
  · rw [if_pos hown, if_pos hown]
    cases hnext : this.root with
    | none => simp only [nullable, hnext, Option.map_some]
    | some root => simp only [nullable, hnext, hroot]
  · rw [if_neg hown, if_neg hown]
    exact congrArg some (foldl_follow flushAppender this.appenders s)

end

end Logger.Impl

namespace Process

variable {render : Formatter → LogRecordView → Bytes} {surroundings : Nat → LogContext × Bytes} {s s' : Process}
  {sys sys' : LogSystem}

/-! ## The state that a process shows -/

/-- The process is in the state, and its pointers are not null. -/
structure Shows (s : Process) (sys : LogSystem) : Prop where
  loggers : ∀ logger, s.loggers logger = (sys.loggers logger).nullable
  registry : s.registry = sys.registry
  next : s.next = sys.next
  appenders : s.appenders = sys.appenders

theorem shows_initial : initial.Shows LogSystem.initial where
  loggers := by
    intro logger
    rw [initial, LogSystem.initial]
    by_cases h : logger = root
    · subst h
      simp only [Function.update_self]
      rfl
    · simp only [Function.update_of_ne h]
      rfl
  registry := rfl
  next := rfl
  appenders := rfl

section

variable (h : s.Shows sys)

include h

theorem Shows.shouldLog (fuel : Nat) : s.shouldLog fuel = sys.loggers.shouldLog fuel := by
  induction fuel with
  | zero => rfl
  | succ fuel ih =>
      funext logger level
      rw [Process.shouldLog, Loggers.shouldLog, ih, h.loggers, Logger.Impl.nullable_shouldLog]

theorem Shows.submit (render : Formatter → LogRecordView → Bytes) (fuel : Nat) :
    s.submit render fuel = sys.loggers.submit (fun _ F record appenders => some (appenders, render F record))
      (fun _ appender level text appenders =>
        Function.update appenders appender ((appenders appender).append level text)) fuel := by
  induction fuel with
  | zero => rfl
  | succ fuel ih =>
      funext logger record appenders
      rw [Process.submit, Loggers.submit, ih, h.loggers, Logger.Impl.nullable_submit]

theorem Shows.flushAll {S : Type} (flushAppender : AppenderId → S → S) (fuel : Nat) (logger : LoggerId) (state : S) :
    s.flushAll flushAppender fuel logger (some state) =
      (sys.loggers.flush (fun _ => flushAppender) fuel logger state).map some := by
  induction fuel generalizing logger state with
  | zero => rfl
  | succ fuel ih =>
      rw [Process.flushAll, Loggers.flush, h.loggers]
      exact Logger.Impl.nullable_flush _ ih flushAppender state

theorem Shows.onLogger (logger : LoggerId) {f : Logger.Nullable → Logger.Nullable} {g : Logger.Impl → Logger.Impl}
    (hfg : f (sys.loggers logger).nullable = (g (sys.loggers logger)).nullable) :
    (s.onLogger logger f).Shows (sys.onLogger logger g) where
  loggers := by
    intro logger'
    rw [Process.onLogger, LogSystem.onLogger]
    by_cases he : logger' = logger
    · subst he
      simp only [Function.update_self, h.loggers, hfg]
    · simp only [Function.update_of_ne he, h.loggers]
  registry := h.registry
  next := h.next
  appenders := h.appenders

end

/-! ## Configurations -/

theorem SameConfiguration.refl (s : Process) : s.SameConfiguration s := ⟨rfl, rfl, rfl, fun _ => rfl⟩

theorem SameConfiguration.trans {s'' : Process} (h : s.SameConfiguration s') (h' : s'.SameConfiguration s'') :
    s.SameConfiguration s'' where
  loggers := h'.loggers.trans h.loggers
  registry := h'.registry.trans h.registry
  next := h'.next.trans h.next
  appenderLevel := fun appender => (h'.appenderLevel appender).trans (h.appenderLevel appender)

/-! ## Following a run of operations -/

/-- A run of operations has the state of the process, and has given each logger the patterns that the calls have. -/
def Follows (render : Formatter → LogRecordView → Bytes) (calls : List Call) (s : Process) : Prop :=
  ∃ ops sys, Run (LogSystem.Step render) (· = LogSystem.initial) ops sys ∧ s.Shows sys ∧
    ∀ logger, (ops.findSome? (History.setsFormatter logger)).map Formatter.pattern =
      calls.findSome? (Call.accepts logger)

/-- What a call that is refused leaves as it was. -/
def Keeps (render : Formatter → LogRecordView → Bytes) (calls : List Call) (s₀ s : Process) : Prop :=
  Follows render calls s ∧ s₀.SameConfiguration s

/-- A record changes only what the sinks have been given, and a record that is not logged not even that. -/
theorem Shows.log (h : s.Shows sys) {history : List Op} (hagrees : Agrees render history sys) {logger : LoggerId}
    (hlogger : logger < sys.next) (context : LogContext) (level : LogLevel) (message : Bytes) :
    ∃ sys', LogSystem.Step render sys (.log logger context level message) sys' ∧
      (s.log render logger context level message).Yields () fun s' => s'.Shows sys' ∧ s.SameConfiguration s' := by
  obtain ⟨sys', hlog, hagrees'⟩ := hagrees.log hlogger context level message
  refine ⟨sys', ⟨hlogger, hlog⟩, ?_⟩
  have hlevels : ∀ appender, (sys'.appenders appender).level = (s.appenders appender).level := by
    intro appender
    rw [hagrees'.appenderLevel, h.appenders, hagrees.appenderLevel]
    rfl
  obtain ⟨appenders, hsubmit, rfl⟩ := Option.map_eq_some_iff.mp hlog
  have hlogged := (Loggers.logLevel_eq_submit (hagrees.rootChain hlogger) (rootChain_length logger) _ _).trans hsubmit
  rw [Loggers.logLevel] at hlogged
  have hname : (s.loggers logger).name = (sys.loggers logger).name := by
    rw [h.loggers]
    rfl
  rw [Process.log, h.shouldLog, h.submit, hname, h.appenders]
  simp only [LogContext.getRecord] at hlogged hsubmit ⊢
  cases hshould : sys.loggers.shouldLog 2 logger level with
  | none =>
      rw [hshould] at hlogged
      cases hlogged
  | some logged =>
      rw [hshould] at hlogged
      cases logged with
      | false =>
          cases hlogged
          exact Outcome.yields_done ⟨⟨h.loggers, h.registry, h.next, h.appenders⟩, .refl s⟩
      | true =>
          simp only [hsubmit, withAppenders]
          exact Outcome.yields_done ⟨⟨h.loggers, h.registry, h.next, rfl⟩, ⟨rfl, rfl, rfl, hlevels⟩⟩

theorem Follows.log {calls : List Call} (h : Follows render calls s) {logger : LoggerId} (hlogger : logger < s.next)
    (context : LogContext) (level : LogLevel) (message : Bytes) :
    (s.log render logger context level message).Yields () (Keeps render calls s) := by
  obtain ⟨ops, sys, hrun, hshows, hpatterns⟩ := h
  rw [hshows.next] at hlogger
  obtain ⟨sys', hstep, hlog⟩ := hshows.log (agrees_of_run hrun) hlogger context level message
  refine hlog.imp fun s' hs' => ⟨⟨_, sys', .extend hrun hstep, hs'.1, fun logger' => ?_⟩, hs'.2⟩
  rw [List.findSome?_cons]
  exact hpatterns logger'

theorem Follows.root_lt {calls : List Call} (h : Follows render calls s) : root < s.next := by
  obtain ⟨ops, sys, hrun, hshows, -⟩ := h
  rw [hshows.next]
  exact (agrees_of_run hrun).root_lt

theorem Follows.assertFailed {calls : List Call} (h : Follows render calls s) (failure : AssertFailure) :
    (s.assertFailed render surroundings failure).Yields () (Keeps render calls s) := by
  obtain ⟨ops, sys, hrun, hshows, hpatterns⟩ := h
  have hcounted : Follows render calls { s with failedAssertions := s.failedAssertions + 1 } :=
    ⟨ops, sys, hrun, ⟨hshows.loggers, hshows.registry, hshows.next, hshows.appenders⟩, hpatterns⟩
  refine (hcounted.log hcounted.root_lt _ _ _).imp fun s' hs' => ⟨hs'.1, ?_⟩
  exact ⟨hs'.2.loggers, hs'.2.registry, hs'.2.next, hs'.2.appenderLevel⟩

/-! ## Refused calls -/

section

variable {calls : List Call}

theorem assertFailed_keeps (calls : List Call) (s₀ : Process) (failure : AssertFailure) (s : Process)
    (h : Keeps render calls s₀ s) :
    (s.assertFailed render surroundings failure).Yields () (Keeps render calls s₀) :=
  (h.1.assertFailed failure).imp fun _ hs' => ⟨hs'.1, h.2.trans hs'.2⟩

theorem Follows.assertRetVal {α : Type} (h : Follows render calls s) (failure : AssertFailure) (value : α) :
    (assertRetVal (Process.assertFailed render surroundings) failure value s).Yields value (Keeps render calls s) :=
  assertRetVal_yields (assertFailed_keeps calls s) failure value ⟨h, .refl s⟩

theorem Follows.setFormatter_rejected (h : Follows render calls s) (logger : LoggerId) {pattern : Bytes}
    (hrejected : Formatter.new pattern = none) :
    (s.setFormatter render surroundings logger pattern).Throws (Keeps render calls s) :=
  (Formatter.construct_throws (assertFailed_keeps calls s) hrejected ⟨h, .refl s⟩).bind

theorem Follows.implSetFormatter_null (h : Follows render calls s) (logger : LoggerId) :
    (s.implSetFormatter render surroundings logger none).Yields () (Keeps render calls s) := by
  rw [implSetFormatter, if_pos rfl]
  exact h.assertRetVal _ ()

theorem Follows.addAppender_null (h : Follows render calls s) (logger : LoggerId) :
    (s.addAppender render surroundings logger none).Yields () (Keeps render calls s) := by
  rw [addAppender, if_pos rfl]
  exact h.assertRetVal _ ()

theorem Follows.getLogger_empty (h : Follows render calls s) :
    (s.getLogger render surroundings []).Yields none (Keeps render calls s) := by
  rw [getLogger, if_pos List.isEmpty_nil]
  exact h.assertRetVal _ none

/-! ## One more call -/

/-- A call that gives no pattern, after which the process still follows the calls before it. -/
theorem Follows.cons {call : Call} (h : Follows render calls s) (hnone : ∀ logger, call.accepts logger = none) :
    Follows render (call :: calls) s := by
  obtain ⟨ops, sys, hrun, hshows, hpatterns⟩ := h
  refine ⟨ops, sys, hrun, hshows, fun logger => ?_⟩
  rw [List.findSome?_cons, hnone]
  exact hpatterns logger

/-- A call that is an operation. -/
theorem follows_extend {call : Call} {ops : List Op} (op : Op)
    (hrun : Run (LogSystem.Step render) (· = LogSystem.initial) ops sys)
    (hpatterns : ∀ logger, (ops.findSome? (History.setsFormatter logger)).map Formatter.pattern =
      calls.findSome? (Call.accepts logger))
    (hcallable : op.Callable sys) (hperform : sys.perform render op = some sys') (hshows : s'.Shows sys')
    (hsame : ∀ logger, (History.setsFormatter logger op).map Formatter.pattern = call.accepts logger) :
    Follows render (call :: calls) s' := by
  refine ⟨op :: ops, sys', .extend hrun ⟨hcallable, hperform⟩, hshows, fun logger => ?_⟩
  rw [List.findSome?_cons, List.findSome?_cons, ← hsame]
  cases History.setsFormatter logger op with
  | none => exact hpatterns logger
  | some formatter => rfl

theorem Shows.getLogger (h : s.Shows sys) (render : Formatter → LogRecordView → Bytes)
    (surroundings : Nat → LogContext × Bytes) {name : Bytes} (hname : name ≠ []) :
    ∃ s' logger, s.getLogger render surroundings name = .done s' logger ∧ s'.Shows (sys.getLogger name).1 := by
  have hnonempty : ¬name.isEmpty = true := by simpa using hname
  rw [Process.getLogger, if_neg hnonempty, LogSystem.getLogger, if_neg hnonempty, h.registry, h.next]
  cases sys.registry.lookup name with
  | some logger => exact ⟨s, _, rfl, h⟩
  | none =>
      refine ⟨_, _, rfl, ⟨fun logger => ?_, rfl, rfl, h.appenders⟩⟩
      by_cases he : logger = sys.next
      · subst he
        simp only [Function.update_self]
        rfl
      · simp only [Function.update_of_ne he]
        exact h.loggers logger

theorem Shows.removeAppender (h : s.Shows sys) (logger : LoggerId) (appender : AppenderId) :
    (s.onLogger logger (·.removeAppender (some appender))).Shows (sys.onLogger logger (·.removeAppender appender)) := by
  refine h.onLogger logger ?_
  simp only [Logger.Members.removeAppender, Logger.Impl.nullable, List.filter_map]
  simp [Function.comp_def]

/-- There is no null pointer to remove. -/
theorem Shows.removeAppender_null (h : s.Shows sys) (logger : LoggerId) :
    (s.onLogger logger (·.removeAppender none)).Shows sys := by
  have hunchanged : sys.onLogger logger id = sys := by
    simp only [LogSystem.onLogger, id_eq, Function.update_eq_self]
  rw [← hunchanged]
  refine h.onLogger logger ?_
  simp [Logger.Members.removeAppender, Logger.Impl.nullable]

theorem Follows.implSetFormatter_some (h : Follows render calls s) {logger : LoggerId} (hlogger : logger < s.next)
    (F : Formatter) {call : Call}
    (haccepts : ∀ logger', call.accepts logger' = if logger = logger' then some F.pattern else none) :
    (s.implSetFormatter render surroundings logger (some F)).Yields () (Follows render (call :: calls)) := by
  obtain ⟨ops, sys, hrun, hshows, hpatterns⟩ := h
  rw [hshows.next] at hlogger
  rw [implSetFormatter, if_neg (Option.some_ne_none F)]
  refine Outcome.yields_done (follows_extend (.setFormatter logger F) hrun hpatterns hlogger rfl
    (hshows.onLogger logger rfl) fun logger' => ?_)
  rw [haccepts, History.setsFormatter]
  split <;> rfl

theorem Follows.setFormatter_accepted (h : Follows render calls s) {logger : LoggerId} (hlogger : logger < s.next)
    {pattern : Bytes} {F : Formatter} (hF : Formatter.new pattern = some F) :
    (s.setFormatter render surroundings logger pattern).Yields ()
      (Follows render (.setFormatter logger pattern :: calls)) := by
  refine (Formatter.construct_yields (assertFailed_keeps calls s) hF ⟨h, .refl s⟩).bind fun s₁ hs₁ => ?_
  rw [← hs₁.2.next] at hlogger
  refine hs₁.1.implSetFormatter_some hlogger F fun logger' => ?_
  simp only [Call.accepts, hF, Option.isSome_some, and_true, Formatter.pattern_of_new hF]

theorem syncAll_eq_flushAll {S : Type} (s : Process) (visit : AppenderId → S → S) :
    s.syncAll visit = s.flushAll visit := by
  funext fuel
  induction fuel with
  | zero => rfl
  | succ fuel ih =>
      funext logger state
      rw [syncAll, flushAll, ih]
      rfl

/-- A loop over appenders that changes nothing reaches no null pointer. -/
theorem Follows.flushAll_eq {S : Type} (h : Follows render calls s) {logger : LoggerId} (hlogger : logger < s.next)
    (visit : AppenderId → S → S) (state : S) (hvisit : ∀ appender, visit appender state = state) :
    s.flushAll visit 2 logger (some state) = some (some state) := by
  obtain ⟨ops, sys, hrun, hshows, -⟩ := h
  rw [hshows.next] at hlogger
  rw [hshows.flushAll, Loggers.flush_eq ((agrees_of_run hrun).rootChain hlogger) (rootChain_length logger)]
  cases sys.loggers.target (rootChain logger) with
  | none => rfl
  | some target => exact congrArg (some ∘ some) (List.foldl_fixed' hvisit _)

theorem Follows.flush (h : Follows render calls s) {logger : LoggerId} (hlogger : logger < s.next) :
    (s.flush logger).Yields () (· = s) := by
  rw [Process.flush, h.flushAll_eq hlogger _ s.appenders fun appender => Function.update_eq_self appender s.appenders]
  exact Outcome.yields_done rfl

theorem Follows.sync (h : Follows render calls s) {logger : LoggerId} (hlogger : logger < s.next) :
    (s.sync logger).Yields () (· = s) := by
  rw [Process.sync, syncAll_eq_flushAll, h.flushAll_eq hlogger _ s.appenders fun _ => rfl]
  exact Outcome.yields_done rfl

/-- Every call comes back or throws, and does what operations do. -/
theorem Follows.perform (h : Follows render calls s) {call : Call} (hcall : call.Callable s) :
    ∃ s', (s.perform render surroundings call).after = some s' ∧ Follows render (call :: calls) s' := by
  have ⟨ops, sys, hrun, hshows, hpatterns⟩ := h
  have hlt : ∀ logger, call.logger = some logger → logger < sys.next := by
    intro logger hlogger
    rw [← hshows.next]
    exact hcall logger hlogger
  cases call with
  | getLogger name =>
      by_cases hname : name = []
      · subst hname
        have hperform : (s.perform render surroundings (.getLogger [])).Yields ()
            (Follows render (.getLogger [] :: calls)) :=
          h.getLogger_empty.bind fun s' hs' => Outcome.yields_done (hs'.1.cons fun _ => rfl)
        exact hperform.after
      · obtain ⟨s', logger, hget, hshows'⟩ := hshows.getLogger render surroundings hname
        refine ⟨s', ?_, follows_extend (.getLogger name) hrun hpatterns hname rfl hshows' fun _ => rfl⟩
        rw [Process.perform, hget]
        rfl
  | setLevel logger level =>
      exact ⟨_, rfl, follows_extend (.setLevel logger level) hrun hpatterns (hlt logger rfl) rfl
        (hshows.onLogger logger rfl) fun _ => rfl⟩
  | setFormatter logger pattern =>
      cases hnew : Formatter.new pattern with
      | none =>
          have hnone : ∀ logger', Call.accepts logger' (.setFormatter logger pattern) = none := by
            intro logger'
            simp [Call.accepts, hnew]
          exact ((h.setFormatter_rejected logger hnew).imp fun s' hs' => hs'.1.cons hnone).after
      | some F => exact (h.setFormatter_accepted (hcall logger rfl) hnew).after
  | implSetFormatter logger formatter =>
      cases formatter with
      | none =>
          have hnone : ∀ logger', Call.accepts logger' (.implSetFormatter logger none) = none := by
            intro logger'
            simp only [Call.accepts, Option.map_none, ite_self]
          exact ((h.implSetFormatter_null logger).imp fun s' hs' => hs'.1.cons hnone).after
      | some F =>
          have haccepts : ∀ logger', Call.accepts logger' (.implSetFormatter logger (some F)) =
              if logger = logger' then some F.pattern else none := fun _ => rfl
          exact (h.implSetFormatter_some (hcall logger rfl) F haccepts).after
  | addAppender logger appender =>
      cases appender with
      | none => exact ((h.addAppender_null logger).imp fun s' hs' => hs'.1.cons fun _ => rfl).after
      | some appender =>
          refine ⟨_, by rw [Process.perform, Process.addAppender, if_neg (Option.some_ne_none appender)]; rfl, ?_⟩
          refine follows_extend (.addAppender logger appender) hrun hpatterns (hlt logger rfl) rfl
            (hshows.onLogger logger ?_) fun _ => rfl
          simp [Logger.Members.addAppender, Logger.Impl.nullable]
  | removeAppender logger appender =>
      cases appender with
      | none =>
          have hfollows : Follows render calls (s.onLogger logger (·.removeAppender none)) :=
            ⟨ops, sys, hrun, hshows.removeAppender_null logger, hpatterns⟩
          exact ⟨_, rfl, hfollows.cons fun _ => rfl⟩
      | some appender =>
          exact ⟨_, rfl, follows_extend (.removeAppender logger appender) hrun hpatterns (hlt logger rfl) rfl
            (hshows.removeAppender logger appender) fun _ => rfl⟩
  | clearAppenders logger =>
      exact ⟨_, rfl, follows_extend (.clearAppenders logger) hrun hpatterns (hlt logger rfl) rfl
        (hshows.onLogger logger rfl) fun _ => rfl⟩
  | setAppenderLevel appender level =>
      refine ⟨_, rfl, follows_extend (.setAppenderLevel appender level) hrun hpatterns trivial rfl ?_ fun _ => rfl⟩
      exact ⟨hshows.loggers, hshows.registry, hshows.next, by rw [onAppender, hshows.appenders]; rfl⟩
  | log logger context level message =>
      exact ((h.log (hcall logger rfl) context level message).imp fun s' hs' => hs'.1.cons fun _ => rfl).after
  | flush logger => exact ((h.flush (hcall logger rfl)).imp fun s' hs' => hs' ▸ h.cons fun _ => rfl).after
  | sync logger => exact ((h.sync (hcall logger rfl)).imp fun s' hs' => hs' ▸ h.cons fun _ => rfl).after

/-! ## What a run of operations says of the process -/

theorem Follows.no_null (h : Follows render calls s) (logger : LoggerId) :
    (s.loggers logger).formatter ≠ none ∧ none ∉ (s.loggers logger).appenders := by
  obtain ⟨ops, sys, hrun, hshows, -⟩ := h
  rw [hshows.loggers]
  simp [Logger.Impl.nullable]

theorem Follows.getFormatterPattern (h : Follows render calls s) (logger : LoggerId) :
    (s.loggers logger).getFormatterPattern = (calls.findSome? (Call.accepts logger)).getD defaultLogPattern := by
  obtain ⟨ops, sys, hrun, hshows, hpatterns⟩ := h
  have hformatter := (agrees_of_run hrun).formatter logger
  rw [hshows.loggers, ← hpatterns, Logger.Nullable.getFormatterPattern, Logger.Impl.nullable, hformatter,
    History.formatter]
  cases ops.findSome? (History.setsFormatter logger) with
  | none => rfl
  | some formatter => rfl

theorem follows_of_run (h : Run (Step render surroundings) (· = initial) calls s) : Follows render calls s := by
  refine h.invariant ?_ fun calls s call s' hfollows hstep => ?_
  · rintro _ rfl
    exact ⟨[], LogSystem.initial, .start rfl, shows_initial, fun _ => rfl⟩
  · obtain ⟨s'', hafter, hfollows'⟩ := hfollows.perform hstep.1
    cases hafter.symm.trans hstep.2
    exact hfollows'

end

end Process

end Pans
