import Pans.Threads.Lemmas.Calls
import Pans.Threads.Levels

/-!
# Levels during a call

What the levels are when a call reads them, and what becomes of its record.
-/

namespace Pans

namespace Threads

/-! ## What is shared -/

section

variable {T : Type} [DecidableEq T] {s s' : Shared T} {t : T} {op : Op} {logger : LoggerId} {appender : AppenderId}
  {P : LogLevel → Prop}

theorem Config.apply_level (c : Config) (this : Logger.Impl) : (c.apply this).level = this.level := by
  cases c <;> rfl

theorem run_level (h : op.run t s = some s') (hlevel : P (s.loggers logger).level)
    (hop : ∀ level, op = .setLevel logger level → P level) : P (s'.loggers logger).level := by
  cases op with
  | setLevel other level =>
      cases h
      rcases eq_or_ne logger other with rfl | hne
      · simpa [Shared.onLogger, Logger.Members.setLevel] using hop level rfl
      · simpa [Shared.onLogger, hne] using hlevel
  | apply c =>
      cases h
      rcases eq_or_ne logger c.logger with rfl | hne
      · simpa [Shared.onLogger, Config.apply_level] using hlevel
      · simpa [Shared.onLogger, hne] using hlevel
  | lockShared | unlockShared | lock | appended | unlock | lockExclusive | unlockExclusive =>
      obtain ⟨m, hm, rfl⟩ := Option.map_eq_some_iff.mp h
      exact hlevel
  | _ =>
      cases h
      exact hlevel

theorem run_appenderLevel (h : op.run t s = some s') (hlevel : P (s.appenders appender).level)
    (hop : ∀ level, op = .setAppenderLevel appender level → P level) : P (s'.appenders appender).level := by
  cases op with
  | setAppenderLevel other level =>
      cases h
      rcases eq_or_ne appender other with rfl | hne
      · simpa [Shared.onAppender, Appender.Impl.setLevel] using hop level rfl
      · simpa [Shared.onAppender, hne] using hlevel
  | write through other byte =>
      cases h
      rcases eq_or_ne appender other with rfl | hne
      · simpa [Shared.onAppender, Appender.Impl.writeUnlocked] using hlevel
      · simpa [Shared.onAppender, hne] using hlevel
  | lockShared | unlockShared | lock | appended | unlock | lockExclusive | unlockExclusive =>
      obtain ⟨m, hm, rfl⟩ := Option.map_eq_some_iff.mp h
      exact hlevel
  | _ =>
      cases h
      exact hlevel

theorem run_registered (h : op.run t s = some s') (hregistered : appender ∈ (s.loggers logger).appenders)
    (hop : ∀ c, op = .apply c → ¬c.Removes logger appender) : appender ∈ (s'.loggers logger).appenders := by
  by_cases hother : ∀ c, op = .apply c → c.logger ≠ logger
  · rw [(run_loggers h hother).2]
    exact hregistered
  · simp only [not_forall, not_not] at hother
    obtain ⟨c, rfl, rfl⟩ := hother
    cases h
    have hkept := hop c rfl
    cases c with
    | setFormatter _ formatter =>
        simpa [Shared.onLogger, Config.logger, Config.apply, Logger.Members.setFormatter] using hregistered
    | addAppender _ added =>
        simpa [Shared.onLogger, Config.logger, Config.apply, Logger.Members.addAppender] using .inl hregistered
    | removeAppender _ removed =>
        have hne : appender ≠ removed := by
          rintro rfl
          exact hkept (.inl rfl)
        simpa [Shared.onLogger, Config.logger, Config.apply, Logger.Members.removeAppender, hne] using hregistered
    | clearAppenders _ => exact absurd (.inr rfl) hkept

end

/-! ## One call -/

section

variable {T τ : Type} [DecidableEq T] {render : Formatter → LogRecordView → τ → Bytes × τ} {history : List (T × Event)}
  {s₀ s : Process T τ} {t : T} {n : Nat}

theorem trace_append (later earlier : List (T × Event)) :
    trace t n (later ++ earlier) = trace t n earlier ++ trace t n later := by
  induction later with
  | nil => exact (List.append_nil _).symm
  | cons e later ih =>
      obtain ⟨u, e⟩ := e
      rw [List.cons_append, trace, trace, ih, List.append_assoc]

theorem Move.called {s s' : Shared T} {l l' : Local τ} {call : Call} (h : Move render t s l ⟨n, .call call⟩ s' l') :
    l'.pc = call.enter ∧ l'.calls = n ∧ n = l.calls + 1 := by
  cases h with
  | call => exact ⟨rfl, rfl, rfl⟩
  | next hnext _ => exact absurd rfl ((next_spec hnext).noCall _)

theorem Move.next_of_ne_call {s s' : Shared T} {l l' : Local τ} {e : Event} (h : Move render t s l e s' l')
    (hop : ∀ call, e.op ≠ .call call) : Threads.next render s l = some (e.op, l') ∧ e.call = l.calls := by
  cases h with
  | call call => exact absurd rfl (hop call)
  | next hnext _ => exact ⟨hnext, rfl⟩

/-- The state in which a call begins. -/
structure Entered (render : Formatter → LogRecordView → τ → Bytes × τ) (earlier : List (T × Event)) (t : T) (n : Nat)
    (call : Call) (s : Process T τ) : Prop where
  run : Run (Step render) Init ((t, ⟨n, .call call⟩) :: earlier) s
  pc : (s.threads t).pc = call.enter
  calls : (s.threads t).calls = n
  fresh : trace t n earlier = []

theorem entered {call : Call} (h : Run (Step render) Init ((t, ⟨n, .call call⟩) :: history) s) :
    Entered render history t n call s := by
  cases h with
  | extend hrun hstep =>
      obtain ⟨hpc, hcalls, hn⟩ := hstep.own.called
      exact ⟨.extend hrun hstep, hpc, hcalls, hn ▸ (valid_of_run hrun t).trace_next⟩

/-- What holds when a call begins, and is kept by the steps of the call and by those of other threads, holds during
the call and of its end. -/
theorem call_invariant {Q : List Op → Shared T → Pc → Prop} {K : T × Event → Prop} {later : List (T × Event)}
    (hstart : Q [] s₀.shared (s₀.threads t).pc) (hcalls : (s₀.threads t).calls = n)
    (hnext : ∀ ops s l op l' s', Q ops s l.pc → K (t, ⟨n, op⟩) → next render s l = some (op, l') →
      op.run t s = some s' → Q (ops ++ [op]) s' l'.pc)
    (hother : ∀ ops s pc u e s', Q ops s pc → K (u, e) → e.op.run u s = some s' → Q ops s' pc)
    (h : Run (Step render) (· = s₀) later s) (hok : ∀ e ∈ later, K e) :
    (s.threads t).calls = n ∧ Q (trace t n later) s.shared (s.threads t).pc ∨
      n < (s.threads t).calls ∧ ∃ s', Q (trace t n later) s' .idle := by
  refine Run.since (I := fun later s => (s.threads t).calls = n ∧ Q (trace t n later) s.shared (s.threads t).pc ∨
    n < (s.threads t).calls ∧ ∃ s', Q (trace t n later) s' .idle) ?_ ?_ h hok
  · exact .inl ⟨hcalls, hstart⟩
  intro later s e s' ih hok hstep
  obtain ⟨u, e⟩ := e
  by_cases htu : t = u
  · subst htu
    have hmove := hstep.own
    generalize s'.threads t = l' at hmove ⊢
    generalize s.threads t = l at hmove ih
    generalize s'.shared = shared' at hmove ⊢
    generalize s.shared = shared at hmove ih
    cases hmove with
    | call call hidle =>
        rcases ih with ⟨hcalls, hQ⟩ | ⟨hcalls, hQ⟩
        · rw [trace_call (Nat.ne_of_gt (hcalls ▸ Nat.lt_succ_self _))]
          exact .inr ⟨hcalls ▸ Nat.lt_succ_self _, _, hidle ▸ hQ⟩
        · rw [trace_call (Nat.ne_of_gt (Nat.lt_succ_of_lt hcalls))]
          exact .inr ⟨Nat.lt_succ_of_lt hcalls, hQ⟩
    | next hop hrun =>
        rw [(next_spec hop).calls]
        rcases ih with ⟨rfl, hQ⟩ | ⟨hcalls, hQ⟩
        · rw [trace_self]
          exact .inl ⟨rfl, hnext _ _ _ _ _ _ hQ hok hop hrun⟩
        · rw [trace_call (Nat.ne_of_gt hcalls)]
          exact .inr ⟨hcalls, hQ⟩
  · rw [trace_thread htu, hstep.others t htu]
    exact ih.imp_left fun ⟨hcalls, hQ⟩ => ⟨hcalls, hother _ _ _ _ _ _ hQ hok hstep.own.run⟩

/-- What the call has done since it began is all it has done. -/
theorem Entered.trace {call : Call} {later earlier : List (T × Event)}
    (h : Entered render earlier t n call s) :
    trace t n (later ++ (t, ⟨n, .call call⟩) :: earlier) = .call call :: Threads.trace t n later := by
  rw [trace_append, trace_self, h.fresh]
  rfl

/-! ## The level of the logger -/

variable {later earlier : List (T × Event)} {record : LogRecordView} {logger : LoggerId} {appender : AppenderId}

/-- Below the level of its logger a record goes nowhere, and no lock is taken for it. -/
theorem silent_of_below (hentered : Entered render earlier t n (.route (.submit record) logger) s₀)
    (h : Run (Step render) (· = s₀) later s) (hlevel : LevelSince (Below record) logger s₀.shared later) :
    ∀ op ∈ trace t n later, op = .silent ∨ op = .ret := by
  let Q (ops : List Op) (s : Shared T) (pc : Pc) : Prop := Below record (s.loggers logger).level ∧
    (pc = .readLevel record logger ∨ pc = .ret ∨ pc = .idle) ∧ ∀ op ∈ ops, op = .silent ∨ op = .ret
  have hinvariant : (s.threads t).calls = n ∧ Q (trace t n later) s.shared (s.threads t).pc ∨
      n < (s.threads t).calls ∧ ∃ s', Q (trace t n later) s' .idle := by
    refine call_invariant (K := fun e => ∀ level, e.2.op = .setLevel logger level → Below record level)
      ⟨hlevel.now, .inl hentered.pc, nofun⟩ hentered.calls ?_ ?_ h hlevel.later
    · rintro ops s l op l' s' ⟨hbelow, hpc, hops⟩ hok hnext hrun
      refine ⟨run_level hrun hbelow hok, ?_⟩
      rcases hpc with hpc | hpc | hpc
      · have hlt : record.level.toU8 < (s.loggers logger).level.toU8 := hbelow
        simp only [next, hpc, if_pos hlt] at hnext
        cases hnext
        exact ⟨.inr (.inl rfl), List.forall_mem_append.mpr ⟨hops, List.forall_mem_singleton.mpr (.inl rfl)⟩⟩
      · simp only [next, hpc] at hnext
        cases hnext
        exact ⟨.inr (.inr rfl), List.forall_mem_append.mpr ⟨hops, List.forall_mem_singleton.mpr (.inr rfl)⟩⟩
      · simp only [next, hpc] at hnext
        cases hnext
    · rintro ops s pc u e s' ⟨hbelow, hkept⟩ hok hrun
      exact ⟨run_level hrun hbelow hok, hkept⟩
  rcases hinvariant with ⟨_, _, _, hops⟩ | ⟨_, _, _, _, hops⟩ <;> exact hops

/-! ## The levels of the appenders -/

omit [DecidableEq T] in
theorem next_check {s : Shared T} {l l' : Local τ} {c : Check} (h : next render s l = some (.check c, l')) :
    ∃ d, l.pc = .readAppenderLevel d c.appender ∧
      (c.passed = true ↔ ¬Below d.record (s.appenders c.appender).level) := by
  obtain ⟨d, hpc, _⟩ := next_at h
  refine ⟨d, hpc, ?_⟩
  obtain ⟨through, appender, passed⟩ := c
  simp only [next, hpc] at h
  by_cases hlevel : d.record.level.toU8 < (s.appenders appender).level.toU8
  · rw [if_pos hlevel] at h
    cases h
    exact iff_of_false Bool.false_ne_true (not_not_intro hlevel)
  · rw [if_neg hlevel] at h
    cases h
    exact iff_of_true rfl hlevel

/-- An appender lets the record pass as its level says at some moment of the call. -/
theorem check_iff (hentered : Entered render earlier t n (.route (.submit record) logger) s₀)
    (h : Run (Step render) (· = s₀) later s) {P : LogLevel → Prop}
    (hlevel : AppenderLevelSince P appender s₀.shared later) {c : Check} (hmem : .check c ∈ trace t n later)
    (hc : c.appender = appender) : ∃ level, P level ∧ (c.passed = true ↔ ¬Below record level) := by
  subst hc
  obtain ⟨after, before, rfl⟩ := List.append_of_mem (mem_trace.mp hmem)
  obtain ⟨s₁, s₂, hbefore, hstep, _⟩ := h.around
  have hP : P (s₁.shared.appenders c.appender).level := by
    refine Run.since (I := fun _ s => P (s.shared.appenders c.appender).level)
      (K := fun e => ∀ level, e.2.op = .setAppenderLevel c.appender level → P level) hlevel.now ?_ hbefore ?_
    · exact fun _ _ _ _ hP hok hstep => run_appenderLevel hstep.own.run hP hok
    · exact fun e he => hlevel.later e (List.mem_append_right _ (List.mem_cons_of_mem _ he))
  have hrun := hentered.run.append hbefore
  obtain ⟨hnext, hcalls⟩ := hstep.own.next_of_ne_call nofun
  obtain ⟨d, hpc, hpassed⟩ := next_check hnext
  have hcall : .call (.route (.submit record) logger) ∈
      trace t (s₁.threads t).calls (before ++ (t, ⟨n, .call (.route (.submit record) logger)⟩) :: earlier) :=
    mem_trace.mpr (List.mem_append_right _ (hcalls ▸ List.mem_cons_self))
  have htask := (engaged_of_run hrun t).task _ hcall (.submit d.record) (by rw [hpc]; rfl)
  cases htask
  exact ⟨_, hP, hpassed⟩

/-- To an appender whose level is above that of the record, the record does not go. -/
theorem copies_of_below (hentered : Entered render earlier t n (.route (.submit record) logger) s₀)
    (h : Run (Step render) (· = s₀) later s) (hlevel : AppenderLevelSince (Below record) appender s₀.shared later) :
    ∀ c ∈ copies (trace t n later), c.appender ≠ appender := by
  intro c hc happender
  have hstarted := (valid_of_run (hentered.run.append h) t).started n
  rw [hentered.trace] at hstarted
  rcases hstarted with ⟨_, huntouched⟩ | ⟨x, appenders, pending, _, _, hhanded⟩
  · exact absurd (huntouched.copies ▸ hc) List.not_mem_nil
  · have hcopies : copies (trace t n later) ++ pending = owed x.text (checks (trace t n later)) := hhanded.copies
    have howed : c ∈ owed x.text (checks (trace t n later)) := hcopies ▸ List.mem_append_left _ hc
    obtain ⟨check, hcheck, rfl⟩ := List.mem_map.mp howed
    obtain ⟨hcheck, hpassed⟩ := List.mem_filter.mp hcheck
    obtain ⟨op, hop, hcheck⟩ := List.mem_filterMap.mp hcheck
    cases op <;> cases hcheck
    obtain ⟨level, hbelow, hiff⟩ := check_iff hentered h hlevel hop happender
    exact hiff.mp hpassed hbelow

/-! ## Records that nobody holds back -/

/-- The record has been formatted for an appender. -/
def Met (record : LogRecordView) (logger : LoggerId) (appender : AppenderId) (ops : List Op) : Prop :=
  ∃ x ∈ renderings ops, x.record = record ∧ x.logger = logger ∧ appender ∈ x.appenders

theorem Met.snoc {ops : List Op} {op : Op} (h : Met record logger appender ops) :
    Met record logger appender (ops ++ [op]) := by
  obtain ⟨x, hx, hmet⟩ := h
  exact ⟨x, by rw [renderings_snoc]; exact List.mem_append_left _ hx, hmet⟩

/-- On the way to the place where the record is formatted. -/
def Pc.Nears (record : LogRecordView) (logger : LoggerId) (pc : Pc) : Prop :=
  pc = .readLevel record logger ∨ pc = .lockShared (.submit record) logger ∨
    pc = .testAppenders (.submit record) logger ∨ pc = .format record logger

omit [DecidableEq T] in
theorem next_nears {s : Shared T} {l l' : Local τ} {op : Op} {ops : List Op}
    (hlevel : ¬Below record (s.loggers logger).level) (hmem : appender ∈ (s.loggers logger).appenders)
    (hpc : l.pc.Nears record logger) (h : next render s l = some (op, l')) :
    Met record logger appender (ops ++ [op]) ∨ l'.pc.Nears record logger := by
  rcases hpc with hpc | hpc | hpc | hpc
  · have hlt : ¬record.level.toU8 < (s.loggers logger).level.toU8 := hlevel
    simp only [next, hpc, if_neg hlt] at h
    cases h
    exact .inr (.inr (.inl rfl))
  · simp only [next, hpc] at h
    cases h
    exact .inr (.inr (.inr (.inl rfl)))
  · have hsome : (s.loggers logger).appenders.isEmpty = false := by
      cases happenders : (s.loggers logger).appenders with
      | nil =>
          rw [happenders] at hmem
          cases hmem
      | cons => rfl
    simp only [next, hpc, hsome] at h
    cases h
    exact .inr (.inr (.inr (.inr rfl)))
  · simp only [next, hpc] at h
    cases h
    let formatter := (s.loggers logger).formatter
    let text := (render formatter record l.cache).1
    refine .inl ⟨⟨logger, formatter, (s.loggers logger).appenders, record, text⟩, ?_, rfl, rfl, hmem⟩
    rw [renderings_snoc]
    exact List.mem_append_right _ (List.mem_singleton_self _)

/-- While its logger lets the record pass and has the appender, the record is formatted for it before the call ends. -/
theorem met_of_returned (hentered : Entered render earlier t n (.route (.submit record) logger) s₀)
    (h : Run (Step render) (· = s₀) later s) (hlevel : LevelSince (¬Below record ·) logger s₀.shared later)
    (hregistered : RegisteredSince logger appender s₀.shared later) (hret : .ret ∈ trace t n later) :
    Met record logger appender (trace t n later) := by
  let Q (ops : List Op) (s : Shared T) (pc : Pc) : Prop :=
    (¬Below record (s.loggers logger).level ∧ appender ∈ (s.loggers logger).appenders) ∧
      (Met record logger appender ops ∨ pc.Nears record logger)
  have hinvariant : (s.threads t).calls = n ∧ Q (trace t n later) s.shared (s.threads t).pc ∨
      n < (s.threads t).calls ∧ ∃ s', Q (trace t n later) s' .idle := by
    refine call_invariant
      (K := fun e => (∀ level, e.2.op = .setLevel logger level → ¬Below record level) ∧
        ∀ c, e.2.op = .apply c → ¬c.Removes logger appender)
      ⟨⟨hlevel.now, hregistered.now⟩, .inr (.inl hentered.pc)⟩ hentered.calls ?_ ?_ h
      fun e he => ⟨hlevel.later e he, hregistered.later e he⟩
    · rintro ops s l op l' s' ⟨⟨hbelow, hmem⟩, hpc⟩ ⟨hok, hok'⟩ hnext hrun
      refine ⟨⟨run_level (P := (¬Below record ·)) hrun hbelow hok, run_registered hrun hmem hok'⟩, ?_⟩
      rcases hpc with hmet | hpc
      · exact .inl hmet.snoc
      · exact next_nears hbelow hmem hpc hnext
    · rintro ops s pc u e s' ⟨⟨hbelow, hmem⟩, hkept⟩ ⟨hok, hok'⟩ hrun
      exact ⟨⟨run_level (P := (¬Below record ·)) hrun hbelow hok, run_registered hrun hmem hok'⟩, hkept⟩
  have hidle (hcalls : (s.threads t).calls = n) : (s.threads t).pc = .idle := by
    by_contra hbusy
    refine (valid_of_run (hentered.run.append h) t).unreturned hbusy ?_
    rw [hcalls, trace_append]
    exact List.mem_append_right _ hret
  have hidle_nears : ¬Pc.idle.Nears record logger := by
    rintro (hpc | hpc | hpc | hpc) <;> cases hpc
  rcases hinvariant with ⟨hcalls, _, hmet⟩ | ⟨_, _, _, hmet⟩
  · exact hmet.resolve_right (hidle hcalls ▸ hidle_nears)
  · exact hmet.resolve_right hidle_nears

theorem delivered_of_returned (hentered : Entered render earlier t n (.route (.submit record) logger) s₀)
    (h : Run (Step render) (· = s₀) later s) (hlevel : LevelSince (¬Below record ·) logger s₀.shared later)
    (hregistered : RegisteredSince logger appender s₀.shared later)
    (happender : AppenderLevelSince (¬Below record ·) appender s₀.shared later) (hret : .ret ∈ trace t n later) :
    ∃ x, renderings (trace t n later) = [x] ∧ x.record = record ∧ x.logger = logger ∧
      .appended ⟨logger, appender, x.text⟩ ∈ trace t n later := by
  obtain ⟨x, hx, hrecord, rfl, hmem⟩ := met_of_returned hentered h hlevel hregistered hret
  have hreturned := (valid_of_run (hentered.run.append h) t).returned n
  rw [hentered.trace] at hreturned
  rcases (hreturned (List.mem_cons_of_mem _ hret)).1 with huntouched | ⟨x', hhanded⟩
  · exact absurd (huntouched.renderings ▸ hx) List.not_mem_nil
  · have hrenderings : renderings (trace t n later) = [x'] := hhanded.renderings
    obtain rfl : x = x' := List.mem_singleton.mp (hrenderings ▸ hx)
    refine ⟨x, hrenderings, hrecord, rfl, ?_⟩
    rcases hhanded.refused_or_appended hmem with hrefused | happended
    · have hrefused : .check ⟨x.logger, appender, false⟩ ∈ trace t n later := by simpa using hrefused
      obtain ⟨level, hpasses, hiff⟩ := check_iff hentered h happender hrefused rfl
      exact absurd (hiff.mpr hpasses) Bool.false_ne_true
    · simpa using happended

end

end Threads

end Pans
