import Pans.Threads.Lemmas.Valid

/-!
# Appenders that are no longer registered

A byte goes to an appender through a logger only while the appender is registered there: the thread that writes it
holds the lock under which it found the appender.
-/

namespace Pans

namespace Threads

section

variable {T : Type} [DecidableEq T] {s s' : Shared T} {t : T} {op : Op} {logger : LoggerId} {appender : AppenderId}

theorem Config.Removes.absent {c : Config} (hc : c.Removes logger appender)
    (h : (Op.apply c).run t s = some s') : appender ∉ (s'.loggers logger).appenders := by
  cases h
  rcases hc with rfl | rfl
  · simp [Shared.onLogger, Config.logger, Config.apply, Logger.Members.removeAppender]
  · simp [Shared.onLogger, Config.logger, Config.apply, Logger.Members.clearAppenders]

theorem run_absent (h : op.run t s = some s') (habsent : appender ∉ (s.loggers logger).appenders)
    (hop : op ≠ .apply (.addAppender logger appender)) : appender ∉ (s'.loggers logger).appenders := by
  by_cases hother : ∀ c, op = .apply c → c.logger ≠ logger
  · rw [(run_loggers h hother).2]
    exact habsent
  · simp only [not_forall, not_not] at hother
    obtain ⟨c, rfl, rfl⟩ := hother
    cases h
    cases c with
    | setFormatter _ formatter =>
        simpa [Shared.onLogger, Config.logger, Config.apply, Logger.Members.setFormatter] using habsent
    | addAppender other added =>
        have hne : appender ≠ added := by
          rintro rfl
          exact hop rfl
        simpa [Shared.onLogger, Config.logger, Config.apply, Logger.Members.addAppender, hne] using habsent
    | removeAppender other removed =>
        simp only [Shared.onLogger, Config.logger, Config.apply, Logger.Members.removeAppender, Function.update_self]
        exact fun h => habsent (List.mem_filter.mp h).1
    | clearAppenders _ => simp [Shared.onLogger, Config.logger, Config.apply, Logger.Members.clearAppenders]

end

section

variable {T τ : Type} {render : Formatter → LogRecordView → τ → Bytes × τ} {history : List (T × Event)}
  {logger : LoggerId} {appender : AppenderId} {byte : UInt8}

variable [DecidableEq T]

theorem Valid.registered {s s' : Shared T} {t : T} {l l' : Local τ} {e : Event} (h : Valid render history s t l)
    (hmove : Move render t s l e s' l') (he : e.op = .write logger appender byte) :
    appender ∈ (s.loggers logger).appenders := by
  cases hmove with
  | call => cases he
  | next hnext _ =>
      cases he
      obtain ⟨d, written, hpc, rfl⟩ := next_at hnext
      have hprogress := h.progress
      rw [hpc] at hprogress
      exact List.mem_of_getElem? hprogress.1

/-- From a removal on, and until the appender is added again, no byte is written to it through the logger. -/
theorem no_write_after_removal {s : Process T τ} {later earlier : List (T × Event)} {u : T} {n : Nat} {c : Config}
    (h : Run (Step render) Init (later ++ (u, ⟨n, .apply c⟩) :: earlier) s) (hc : c.Removes logger appender)
    (hadd : ∀ e ∈ later, e.2.op ≠ .apply (.addAppender logger appender)) :
    appender ∉ (s.shared.loggers logger).appenders ∧ ∀ e ∈ later, ∀ byte, e.2.op ≠ .write logger appender byte := by
  induction later generalizing s with
  | nil =>
      cases h with
      | extend h hstep => exact ⟨hc.absent hstep.own.run, nofun⟩
  | cons e later ih =>
      cases h with
      | extend h hstep =>
          obtain ⟨habsent, hwrites⟩ := ih h fun e he => hadd e (List.mem_cons_of_mem _ he)
          refine ⟨run_absent hstep.own.run habsent (hadd e List.mem_cons_self), fun e' he' byte => ?_⟩
          rcases List.mem_cons.mp he' with rfl | he'
          · exact fun hwrite => habsent ((valid_of_run h _).registered hstep.own hwrite)
          · exact hwrites e' he' byte

theorem added_before_write {s : Process T τ} {after between earlier : List (T × Event)} {u v : T} {n m : Nat}
    {c : Config} (h : Run (Step render) Init
      (after ++ (v, ⟨m, .write logger appender byte⟩) :: (between ++ (u, ⟨n, .apply c⟩) :: earlier)) s)
    (hc : c.Removes logger appender) : ∃ e ∈ between, e.2.op = .apply (.addAppender logger appender) := by
  by_contra hadd
  obtain ⟨_, s', hbetween, hwrite, _⟩ := h.around
  have hrun : Run (Step render) Init
      ((v, ⟨m, .write logger appender byte⟩) :: between ++ (u, ⟨n, .apply c⟩) :: earlier) s' := .extend hbetween hwrite
  refine (no_write_after_removal hrun hc fun e he heq => ?_).2 _ List.mem_cons_self byte rfl
  rcases List.mem_cons.mp he with rfl | he
  · cases heq
  · exact hadd ⟨e, he, heq⟩

/-- An update takes effect before it returns. -/
theorem applied_before_return {s : Process T τ} {since before : List (T × Event)} {u : T} {n : Nat} {c : Config}
    (h : Run (Step render) Init (since ++ (u, ⟨n, .ret⟩) :: before) s)
    (hcall : .call (.configure c) ∈ trace u n before) : (u, ⟨n, .apply c⟩) ∈ before := by
  obtain ⟨_, s', hbefore, hret, _⟩ := h.around
  have hvalid := valid_of_run (.extend hbefore hret) u
  have hreturned := (hvalid.returned n (mem_trace.mpr List.mem_cons_self)).2
  have happly := hreturned c (mem_trace.mpr (List.mem_cons_of_mem _ (mem_trace.mp hcall)))
  rcases List.mem_cons.mp (mem_trace.mp happly) with heq | hmem
  · cases heq
  · exact hmem

end

end Threads

end Pans
