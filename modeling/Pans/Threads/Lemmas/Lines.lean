import Pans.Formatter.Lemmas.Thread
import Pans.Logger.Lemmas.DefaultLine
import Pans.Threads.Lemmas.Streams
import Pans.Threads.Lines

/-!
# Lines in the streams of appenders
-/

namespace Pans

namespace Threads

/-! ## One step -/

section

variable {T τ : Type} {render : Formatter → LogRecordView → τ → Bytes × τ} {s : Shared T} {l l' : Local τ} {op : Op}

/-- Only formatting touches what a thread keeps for it. -/
theorem next_cache (h : next render s l = some (op, l')) :
    l'.cache = l.cache ∨ ∃ x, op = .format x ∧ l'.cache = (render x.formatter x.record l.cache).2 := by
  obtain ⟨pc, cache, calls⟩ := l
  cases pc <;> simp only [next] at h
  case format record logger =>
      cases h
      exact .inr ⟨_, rfl, rfl⟩
  case readLevel | askLevel | testAppenders | toRoot | loop | readAppenderLevel | visitLoop | visitUnlock =>
      split at h <;> cases h <;> exact .inl rfl
  case write =>
      split at h
      · cases h
        exact .inl rfl
      · split at h <;> cases h <;> exact .inl rfl
  all_goals cases h <;> exact .inl rfl

theorem Move.cache [DecidableEq T] {s' : Shared T} {t : T} {e : Event} (h : Move render t s l e s' l') :
    l'.cache = l.cache ∨ ∃ x, e.op = .format x ∧ l'.cache = (render x.formatter x.record l.cache).2 := by
  cases h with
  | call => exact .inl rfl
  | next hnext _ => exact next_cache hnext

end

/-! ## Formatting -/

section

variable {Tm : Type} {libc : Libc Tm}

/-- On a sound cache the default formatter writes the line of a record, and the cache stays sound. -/
theorem renderCached_default {record : LogRecordView} {cache : DateCache} (h : Sound libc defaultDateFormat cache)
    (hrecord : Readable libc record) :
    ∃ cache', renderCached libc defaultFormatter record cache = ((record.shown libc).text ++ [byte '\n'], cache') ∧
      Sound libc defaultDateFormat cache' := by
  obtain ⟨cache', text, hformat, hsound, htext⟩ :=
    @Sound.formatItems _ _ _ _ (fun _ _ => none) record _ ⟨cache, ()⟩ h (carries_default hrecord.date) []
  have hdefault : defaultFormatter.format libc (fun _ _ => none) record ⟨cache, ()⟩ [] =
      some (⟨cache', ()⟩, (record.shown libc).text ++ [byte '\n']) := by
    rw [Formatter.format, hformat, htext (.inl hrecord.second), render_default, List.nil_append]
  refine ⟨cache', ?_, hsound⟩
  rw [renderCached, hdefault]

end

/-! ## In a run -/

section

variable {T Tm : Type} [DecidableEq T] {libc : Libc Tm} {history : List (T × Event)} {s : Process T DateCache}

structure Lined (libc : Libc Tm) (history : List (T × Event)) (s : Process T DateCache) : Prop where
  formatter : ∀ logger, (s.shared.loggers logger).formatter = defaultFormatter
  cache : ∀ t, Sound libc defaultDateFormat (s.threads t).cache
  text : ∀ t n x, (t, ⟨n, .format x⟩) ∈ history → x.text = (x.record.shown libc).text ++ [byte '\n']

theorem run_formatter {s s' : Shared T} {t : T} {op : Op} (h : op.run t s = some s')
    (hop : op.Ordinary libc) (hdefault : ∀ logger, (s.loggers logger).formatter = defaultFormatter)
    (logger : LoggerId) : (s'.loggers logger).formatter = defaultFormatter := by
  by_cases hupdate : ∃ c, op = .apply c ∧ c.logger = logger
  · obtain ⟨c, rfl, rfl⟩ := hupdate
    cases h
    simp only [Shared.onLogger, Function.update_self]
    cases c with
    | setFormatter logger formatter => exact hop.formatter formatter rfl
    | addAppender logger | removeAppender logger | clearAppenders logger => exact hdefault logger
  · have hsame : (s'.loggers logger).formatter = (s.loggers logger).formatter :=
      (run_loggers h fun c hc hlogger => hupdate ⟨c, hc, hlogger⟩).1
    exact hsame.trans (hdefault logger)

/-- The record that is formatted was submitted in the same call. -/
theorem submitted_of_format {s' : Process T DateCache} {t : T} {n : Nat} {x : Rendering}
    (h : Run (Step (renderCached libc)) Init history s) (hstep : Step (renderCached libc) s (t, ⟨n, .format x⟩) s') :
    ∃ logger, (t, ⟨n, .call (.route (.submit x.record) logger)⟩) ∈ history := by
  obtain ⟨hnext, hcall⟩ := hstep.own.format
  have hrecord := ((next_spec hnext).format x rfl).record
  obtain ⟨logger, hsubmitted⟩ := (valid_of_run h t).submitted _ hrecord
  exact ⟨logger, hcall ▸ mem_trace.mp hsubmitted⟩

/-- A rendering comes from a record that was submitted, and from the formatter and the cache of the moment. -/
theorem Lined.format {s' : Process T DateCache} {t : T} {n : Nat} {x : Rendering} (hlined : Lined libc history s)
    (h : Run (Step (renderCached libc)) Init history s) (hops : ∀ e ∈ history, e.2.op.Ordinary libc)
    (hstep : Step (renderCached libc) s (t, ⟨n, .format x⟩) s') :
    ∃ cache', renderCached libc x.formatter x.record (s.threads t).cache =
        ((x.record.shown libc).text ++ [byte '\n'], cache') ∧
      x.text = (x.record.shown libc).text ++ [byte '\n'] ∧ Sound libc defaultDateFormat cache' := by
  obtain ⟨hnext, _⟩ := hstep.own.format
  have hof := (next_spec hnext).format x rfl
  obtain ⟨logger, hsubmitted⟩ := submitted_of_format h hstep
  obtain ⟨cache', hrender, hsound⟩ := renderCached_default (hlined.cache t) ((hops _ hsubmitted).submitted _ rfl)
  have hformatter : x.formatter = defaultFormatter := hof.formatter.symm.trans (hlined.formatter x.logger)
  rw [hformatter]
  refine ⟨cache', hrender, ?_, hsound⟩
  rw [hof.text, hformatter, hrender]

theorem lined_of_run (h : Run (Step (renderCached libc)) InitDefault history s)
    (hops : ∀ e ∈ history, e.2.op.Ordinary libc) : Lined libc history s := by
  induction h with
  | start hinit => exact ⟨hinit.formatter, fun t => .inl (by rw [hinit.cache]; rfl), nofun⟩
  | @extend history s e s' hrun hstep ih =>
      obtain ⟨hop, hbefore⟩ := List.forall_mem_cons.mp hops
      have hlined := ih hbefore
      have hinit := hrun.mono_init fun _ => InitDefault.toInit
      obtain ⟨t, n, op⟩ := e
      refine ⟨run_formatter hstep.own.run hop hlined.formatter, ?_, ?_⟩
      · refine Interleaving.forall_of_others (P := fun _ l => Sound libc defaultDateFormat l.cache) hstep.others ?_
          fun u _ => hlined.cache u
        rcases hstep.own.cache with hsame | ⟨x, rfl, hcache⟩
        · exact hsame ▸ hlined.cache t
        · obtain ⟨cache', hrender, _, hsound⟩ := hlined.format hinit hbefore hstep
          rw [hcache, hrender]
          exact hsound
      · intro u m x hmem
        rcases List.mem_cons.mp hmem with hnew | hold
        · cases hnew
          obtain ⟨_, _, htext, _⟩ := hlined.format hinit hbefore hstep
          exact htext
        · exact hlined.text u m x hold

/-- What went to an appender is the line of a record that was submitted in the same call. -/
theorem entry_shown (h : Run (Step (renderCached libc)) InitDefault history s)
    (hops : ∀ e ∈ history, e.2.op.Ordinary libc) {appender : AppenderId} {entry : Entry T}
    (hentry : entry ∈ entries appender history) :
    ∃ record logger, .call (.route (.submit record) logger) ∈ trace entry.thread entry.call history ∧
      Readable libc record ∧ entry.copy.text = (record.shown libc).text ++ [byte '\n'] := by
  have hvalid := valid_of_run (h.mono_init fun _ => InitDefault.toInit) entry.thread
  have hcopy : entry.copy ∈ copies (trace entry.thread entry.call history) :=
    List.mem_filterMap.mpr ⟨_, mem_trace.mpr (mem_entries hentry), rfl⟩
  rcases hvalid.started entry.call with ⟨met, huntouched⟩ | ⟨x, appenders, pending, _, _, hhanded⟩
  · rw [huntouched.copies] at hcopy
    cases hcopy
  · have hx : x ∈ renderings (trace entry.thread entry.call history) := by
      rw [hhanded.renderings]
      exact List.mem_singleton_self x
    have howed : entry.copy ∈ owed x.text (checks (trace entry.thread entry.call history)) := by
      rw [← hhanded.copies]
      exact List.mem_append_left _ hcopy
    obtain ⟨c, _, hc⟩ := List.mem_map.mp howed
    obtain ⟨op, hop, hrendering⟩ := List.mem_filterMap.mp hx
    obtain rfl := rendering_eq_some.mp hrendering
    obtain ⟨logger, hsubmitted⟩ := (hvalid.genuine entry.call x hx).submitted
    refine ⟨x.record, logger, hsubmitted, (hops _ (mem_trace.mp hsubmitted)).submitted _ rfl, ?_⟩
    rw [← (lined_of_run h hops).text _ _ x (mem_trace.mp hop), ← hc]

end

end Threads

end Pans
