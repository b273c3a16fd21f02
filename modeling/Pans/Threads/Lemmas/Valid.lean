import Pans.Threads.Lemmas.Progress

/-!
# What holds of every thread
-/

namespace Pans

namespace Threads

/-! ## What is shared -/

section

variable {T : Type} [DecidableEq T] {s s' : Shared T} {t : T} {op : Op}

/-- Only an update changes a formatter or a list of appenders, and only those of its own logger. -/
theorem run_loggers (h : op.run t s = some s') {logger : LoggerId}
    (hop : ∀ c, op = .apply c → c.logger ≠ logger) :
    (s'.loggers logger).formatter = (s.loggers logger).formatter ∧
      (s'.loggers logger).appenders = (s.loggers logger).appenders := by
  cases op with
  | apply c =>
      cases h
      simp [Shared.onLogger, (hop c rfl).symm]
  | setLevel other level =>
      cases h
      rcases eq_or_ne logger other with rfl | hne
      · simp [Shared.onLogger, Logger.Members.setLevel]
      · simp [Shared.onLogger, hne]
  | lockShared | unlockShared | lock | appended | unlock | lockExclusive | unlockExclusive =>
      obtain ⟨m, hm, rfl⟩ := Option.map_eq_some_iff.mp h
      exact ⟨rfl, rfl⟩
  | _ =>
      cases h
      exact ⟨rfl, rfl⟩

end

/-! ## One step of a program -/

def Pc.record : Pc → Option LogRecordView
  | readLevel record _ | format record _ => some record
  | lockShared (.submit record) _ | testAppenders (.submit record) _ | unlockEmpty (.submit record) _
  | toRoot (.submit record) _ => some record
  | _ => none

section

variable {T τ : Type} {render : Formatter → LogRecordView → τ → Bytes × τ} {s : Shared T} {l l' : Local τ} {op : Op}

/-- A rendering shows what is shared and comes from the record at hand. -/
structure Rendering.Of (render : Formatter → LogRecordView → τ → Bytes × τ) (s : Shared T) (l : Local τ)
    (x : Rendering) : Prop where
  record : l.pc.record = some x.record
  formatter : (s.loggers x.logger).formatter = x.formatter
  appenders : (s.loggers x.logger).appenders = x.appenders
  text : x.text = (render x.formatter x.record l.cache).1

structure NextSpec (render : Formatter → LogRecordView → τ → Bytes × τ) (s : Shared T) (l : Local τ) (op : Op)
    (l' : Local τ) : Prop where
  calls : l'.calls = l.calls
  noCall : ∀ call, op ≠ .call call
  ret : op = .ret → l.pc = .ret ∧ l'.pc = .idle
  record : ∀ record, l'.pc.record = some record → l.pc.record = some record
  format : ∀ x, op = .format x → x.Of render s l

/-- Most operations are neither the first nor the last of a call, and do not format. -/
def Op.Plain : Op → Prop
  | call _ | ret | format _ => False
  | _ => True

theorem NextSpec.plain (hop : op.Plain) (hcalls : l'.calls = l.calls)
    (hrecord : l'.pc.record = none ∨ l'.pc.record = l.pc.record) : NextSpec render s l op l' where
  calls := hcalls
  noCall _ h := by rw [h] at hop; exact hop
  ret h := by rw [h] at hop; exact hop.elim
  format _ h := by rw [h] at hop; exact hop.elim
  record record h := by
    rcases hrecord with hnone | hsame
    · rw [hnone] at h
      cases h
    · exact hsame ▸ h

theorem next_spec (h : next render s l = some (op, l')) : NextSpec render s l op l' := by
  obtain ⟨pc, cache, calls⟩ := l
  cases pc <;> simp only [next] at h
  case format record logger =>
      cases h
      constructor
      · rfl
      · simp
      · simp
      · simp [Pc.record]
      · intro x hx
        cases hx
        exact ⟨rfl, rfl, rfl, rfl⟩
  case ret =>
      cases h
      exact ⟨rfl, by simp, fun _ => ⟨rfl, rfl⟩, by simp [Pc.record], by simp⟩
  case readLevel | askLevel =>
      split at h <;> cases h
      · exact .plain trivial rfl (.inl rfl)
      · exact .plain trivial rfl (.inr rfl)
  case lockShared task logger | unlockEmpty task logger =>
      cases h
      cases task <;> exact .plain trivial rfl (.inr rfl)
  case testAppenders task logger =>
      split at h <;> cases h <;> cases task <;> exact .plain trivial rfl (.inr rfl)
  case toRoot task logger =>
      split at h <;> cases h
      · cases task <;> exact .plain trivial rfl (.inr rfl)
      · cases task <;> exact .plain trivial rfl (.inl rfl)
  case write =>
      split at h
      · cases h
        exact .plain trivial rfl (.inl rfl)
      · split at h <;> cases h <;> exact .plain trivial rfl (.inl rfl)
  case loop | readAppenderLevel | visitLoop | visitUnlock =>
      split at h <;> cases h <;> exact .plain trivial rfl (.inl rfl)
  all_goals cases h <;> exact .plain trivial rfl (.inl rfl)

theorem Move.format [DecidableEq T] {t : T} {s' : Shared T} {n : Nat} {x : Rendering}
    (h : Move render t s l ⟨n, .format x⟩ s' l') : Threads.next render s l = some (.format x, l') ∧ n = l.calls := by
  cases h with
  | next hnext _ => exact ⟨hnext, rfl⟩

end

/-! ## One thread of a process -/

/-- What is known of a thread: the locks it holds, where it is in its current call, and what all its calls have
done. -/
structure Valid {T τ : Type} [DecidableEq T] (render : Formatter → LogRecordView → τ → Bytes × τ)
    (history : List (T × Event)) (s : Shared T) (t : T) (l : Local τ) : Prop where
  grants : s.Grants t l.pc.held
  numbered : ∀ e, (t, e) ∈ history → e.call ≤ l.calls
  progress : Progress s.loggers (trace t l.calls history) l.pc
  called : l.pc ≠ .idle → ∃ call, .call call ∈ trace t l.calls history
  unreturned : l.pc ≠ .idle → .ret ∉ trace t l.calls history
  submitted : ∀ record, l.pc.record = some record →
    ∃ logger, .call (.route (.submit record) logger) ∈ trace t l.calls history
  configured : ∀ c, .call (.configure c) ∈ trace t l.calls history →
    .apply c ∈ trace t l.calls history ∨ l.pc = .lock c ∨ l.pc = .apply c
  started : ∀ n, Started (trace t n history)
  genuine : ∀ n, ∀ x ∈ renderings (trace t n history), Genuine render (trace t n history) x
  returned : ∀ n, .ret ∈ trace t n history → Complete (trace t n history) ∧ Configured (trace t n history)

section

variable {T τ : Type} [DecidableEq T] {render : Formatter → LogRecordView → τ → Bytes × τ}
  {history : List (T × Event)} {s s' : Shared T} {t u : T} {l l' m : Local τ} {e : Event} {op : Op}

theorem Genuine.snoc {ops : List Op} {x : Rendering} (h : Genuine render ops x) :
    Genuine render (ops ++ [op]) x where
  submitted := h.submitted.imp fun _ => List.mem_append_left _
  text := h.text

theorem Valid.start (s : Shared T) (t : T) (cache : τ) : Valid render [] s t ⟨.idle, cache, 0⟩ where
  grants := grants_none s t
  numbered := nofun
  progress := .inl ⟨[], .nil⟩
  called h := absurd rfl h
  unreturned h := absurd rfl h
  submitted := nofun
  configured := nofun
  started _ := .inl ⟨[], .nil⟩
  genuine := nofun
  returned := nofun

theorem Valid.trace_next (h : Valid render history s t l) : trace t (l.calls + 1) history = [] := by
  refine List.eq_nil_iff_forall_not_mem.mpr fun op hop => ?_
  have := h.numbered _ (mem_trace.mp hop)
  exact absurd this (Nat.not_succ_le_self _)

theorem Valid.call (h : Valid render history s t l) (call : Call) :
    Valid render ((t, ⟨l.calls + 1, .call call⟩) :: history) s t
      { l with pc := call.enter, calls := l.calls + 1 } := by
  have hnow : trace t (l.calls + 1) ((t, ⟨l.calls + 1, .call call⟩) :: history) = [.call call] := by
    rw [trace_self, h.trace_next, List.nil_append]
  have huntouched : Untouched [.call call] [] := Untouched.nil.quiet ⟨rfl, rfl, rfl, rfl⟩
  constructor
  case grants =>
      rw [enter_held]
      exact grants_none s t
  case numbered =>
      intro e he
      rcases List.mem_cons.mp he with he | he
      · cases he
        exact Nat.le_refl _
      · exact Nat.le_succ_of_le (h.numbered e he)
  case progress =>
      rw [hnow]
      exact progress_enter huntouched
  case called =>
      rw [hnow]
      exact fun _ => ⟨call, List.mem_singleton_self _⟩
  case unreturned =>
      rw [hnow]
      simp
  case submitted =>
      rw [hnow]
      intro record hrecord
      cases call with
      | route task logger =>
          cases task <;> cases hrecord
          exact ⟨logger, List.mem_singleton_self _⟩
      | _ => cases hrecord
  case configured =>
      rw [hnow]
      intro c hc
      cases List.mem_singleton.mp hc
      exact .inr (.inl rfl)
  case started =>
      refine forall_trace h.started ?_
      rw [h.trace_next]
      exact .inl ⟨[], huntouched⟩
  case genuine =>
      refine forall_trace (P := fun ops => ∀ x ∈ renderings ops, Genuine render ops x) h.genuine ?_
      rw [h.trace_next]
      nofun
  case returned =>
      refine forall_trace (P := fun ops => .ret ∈ ops → Complete ops ∧ Configured ops) h.returned ?_
      rw [h.trace_next]
      simp

/-- What a thread reads under its lock is not changed by an update that another thread makes under its own. -/
theorem Progress.run {ops : List Op} {pc : Pc} {held : Held} (h : Progress s.loggers ops pc)
    (hshared : ∀ c, op = .apply c → ∀ logger, pc.shared = some logger → (s.loggerMutex logger).HeldShared t)
    (hgrants : s.Grants u held) (hneeds : op.Needs held) (hrun : op.run u s = some s') :
    Progress s'.loggers ops pc := by
  refine h.congr fun logger hlogger => run_loggers hrun ?_
  rintro c rfl rfl
  exact (hshared c rfl _ hlogger).not_exclusive (hgrants.exclusive _ hneeds)

theorem Valid.next (h : Valid render history s t l) (hnext : next render s l = some (op, l'))
    (hrun : op.run t s = some s') : Valid render ((t, ⟨l.calls, op⟩) :: history) s' t l' := by
  have hspec := next_spec hnext
  have hheld := next_held hnext
  have hneeds := next_needs hnext
  have hnow : trace t l.calls ((t, ⟨l.calls, op⟩) :: history) = trace t l.calls history ++ [op] := trace_self
  have hbusy : l.pc ≠ .idle := by
    intro hidle
    rw [Threads.next, hidle] at hnext
    cases hnext
  have hshared (c : Config) (hc : op = .apply c) (logger : LoggerId) (hlogger : l'.pc.shared = some logger) :
      (s.loggerMutex logger).HeldShared t := by
    rw [hc] at hheld
    exact h.grants.shared logger ((congrArg Held.shared hheld).symm.trans hlogger)
  have hprogress := (h.progress.next hnext).run hshared h.grants hneeds hrun
  have hop {call : Call} : .call call ∈ trace t l.calls history ++ [op] ↔ .call call ∈ trace t l.calls history := by
    rw [List.mem_append, List.mem_singleton]
    exact or_iff_left fun hcall => hspec.noCall _ hcall.symm
  constructor
  case grants =>
      rw [hheld]
      exact h.grants.own hrun
  case numbered =>
      rw [hspec.calls]
      intro e he
      rcases List.mem_cons.mp he with he | he
      · cases he
        exact Nat.le_refl _
      · exact h.numbered e he
  case progress =>
      rw [hspec.calls, hnow]
      exact hprogress
  case called =>
      rw [hspec.calls, hnow]
      exact fun _ => (h.called hbusy).imp fun _ => List.mem_append_left _
  case unreturned =>
      rw [hspec.calls, hnow, List.mem_append, List.mem_singleton]
      rintro hbusy' (hret | hret)
      · exact h.unreturned hbusy hret
      · exact hbusy' (hspec.ret hret.symm).2
  case submitted =>
      rw [hspec.calls, hnow]
      intro record hrecord
      obtain ⟨logger, hlogger⟩ := h.submitted record (hspec.record record hrecord)
      exact ⟨logger, List.mem_append_left _ hlogger⟩
  case configured =>
      rw [hspec.calls, hnow]
      intro c hc
      rcases h.configured c (hop.mp hc) with happly | hpc | hpc
      · exact .inl (List.mem_append_left _ happly)
      · rw [Threads.next, hpc] at hnext
        cases hnext
        exact .inr (.inr rfl)
      · rw [Threads.next, hpc] at hnext
        cases hnext
        exact .inl (List.mem_append_right _ (List.mem_singleton_self _))
  case started =>
      exact forall_trace h.started hprogress.started
  case genuine =>
      refine forall_trace (P := fun ops => ∀ x ∈ renderings ops, Genuine render ops x) h.genuine fun x hx => ?_
      rw [renderings_snoc] at hx
      rcases List.mem_append.mp hx with hx | hx
      · exact (h.genuine _ x hx).snoc
      · have hfound := hspec.format x (rendering_eq_some.mp (Option.mem_toList.mp hx))
        obtain ⟨logger, hlogger⟩ := h.submitted _ hfound.record
        exact ⟨⟨logger, List.mem_append_left _ hlogger⟩, _, hfound.text⟩
  case returned =>
      refine forall_trace (P := fun ops => .ret ∈ ops → Complete ops ∧ Configured ops) h.returned fun hret => ?_
      rcases List.mem_append.mp hret with hret | hret
      · exact absurd hret (h.unreturned hbusy)
      · obtain rfl := List.mem_singleton.mp hret
        have hpc := (hspec.ret rfl).1
        have hcomplete : Complete (trace t l.calls history) := by
          have := h.progress
          rwa [hpc] at this
        refine ⟨hcomplete.quiet ⟨rfl, rfl, rfl, rfl⟩, fun c hc => List.mem_append_left _ ?_⟩
        simpa [hpc] using h.configured c (hop.mp hc)

theorem Valid.other (h : Valid render history s t l) (htu : t ≠ u) (hu : Valid render history s u m)
    (hmove : Move render u s m e s' l') : Valid render ((u, e) :: history) s' t l := by
  have hsame (n : Nat) : trace t n ((u, e) :: history) = trace t n history := trace_thread htu
  constructor
  · exact h.grants.other hmove.run htu
  · intro e he
    rcases List.mem_cons.mp he with he | he
    · cases he
      exact absurd rfl htu
    · exact h.numbered e he
  all_goals simp only [hsame]
  · exact h.progress.run (fun _ _ => h.grants.shared) hu.grants hmove.needs hmove.run
  · exact h.called
  · exact h.unreturned
  · exact h.submitted
  · exact h.configured
  · exact h.started
  · exact h.genuine
  · exact h.returned

theorem valid_of_run {s : Process T τ} (h : Run (Step render) Init history s) (t : T) :
    Valid render history s.shared t (s.threads t) := by
  refine Interleaving.forall_threads (fun s hinit t => ?_) ?_ ?_ h t
  · have hlocal : s.threads t = ⟨.idle, (s.threads t).cache, 0⟩ := by
      rw [← hinit.idle t, ← hinit.calls t]
    rw [hlocal]
    exact .start _ _ _
  · intro history s t l e s' l' hvalid hmove
    cases hmove with
    | call call => exact hvalid.call call
    | next hnext hrun => exact hvalid.next hnext hrun
  · intro history s t l e s' l' u m hne hu ht hmove
    exact hu.other hne ht hmove

end

end Threads

end Pans
