import Pans.Threads.Trace

/-!
# The operations of a call

How the records of a history grow by an operation.
-/

namespace Pans

namespace Threads

/-! ## Histories -/

section

variable {T : Type} [DecidableEq T] {t u : T} {n : Nat} {e : Event} {op : Op} {history : List (T × Event)}

theorem trace_self : trace t n ((t, ⟨n, op⟩) :: history) = trace t n history ++ [op] := by
  simp [trace]

theorem trace_call (h : e.call ≠ n) : trace t n ((u, e) :: history) = trace t n history := by
  simp [trace, h]

theorem trace_thread (h : t ≠ u) : trace t n ((u, e) :: history) = trace t n history := by
  simp [trace, h.symm]

/-- An operation adds to one call of one thread. -/
theorem forall_trace {P : List Op → Prop} (h : ∀ m, P (trace t m history)) (hnow : P (trace t n history ++ [op]))
    (m : Nat) : P (trace t m ((t, ⟨n, op⟩) :: history)) := by
  by_cases hm : m = n
  · rw [hm, trace_self]
    exact hnow
  · rw [trace_call (Ne.symm hm)]
    exact h m

theorem mem_trace : op ∈ trace t n history ↔ (t, ⟨n, op⟩) ∈ history := by
  induction history with
  | nil => simp [trace]
  | cons first history ih =>
      obtain ⟨u, m, first⟩ := first
      by_cases h : u = t ∧ m = n
      · obtain ⟨rfl, rfl⟩ := h
        simp [trace_self, ih, or_comm]
      · have hne : (t, (⟨n, op⟩ : Event)) ≠ (u, ⟨m, first⟩) := by
          intro heq
          cases heq
          exact h ⟨rfl, rfl⟩
        simp [trace, h, ih, hne]

theorem entries_of_call (appender : AppenderId) :
    ((entries appender history).filter fun entry => entry.thread = t ∧ entry.call = n).map (·.copy) =
      (copies (trace t n history)).filter (·.appender = appender) := by
  induction history with
  | nil => rfl
  | cons first history ih =>
      obtain ⟨u, m, op⟩ := first
      simp only [entries, trace, copies, List.filter_append, List.map_append, List.filterMap_append] at ih ⊢
      rw [ih, List.filter_map, List.map_map]
      by_cases hcall : u = t ∧ m = n
      · cases hop : op.copy? <;> simp [Function.comp_def, hcall, hop, Op.copyOn]
      · simp [Function.comp_def, hcall]

end

section

variable {T : Type} {t : T} {e : Event} {history : List (T × Event)} {appender : AppenderId}

theorem recordsText_cons :
    recordsText (entries appender ((t, e) :: history)) =
      recordsText (entries appender history) ++ ((e.op.copyOn appender).map (·.text)).flatten := by
  simp [entries, recordsText, Function.comp_def]

theorem mem_copyOn {op : Op} {c : Copy} (h : c ∈ op.copyOn appender) : op = .appended c ∧ c.appender = appender := by
  simp only [Op.copyOn, List.mem_filter, Option.mem_toList, decide_eq_true_eq] at h
  obtain ⟨hcopy, happender⟩ := h
  cases op <;> cases hcopy
  exact ⟨rfl, happender⟩

theorem mem_entries {entry : Entry T} (h : entry ∈ entries appender history) :
    (entry.thread, ⟨entry.call, .appended entry.copy⟩) ∈ history := by
  induction history with
  | nil => cases h
  | cons first history ih =>
      obtain ⟨u, m, op⟩ := first
      rcases List.mem_append.mp h with h | h
      · exact List.mem_cons_of_mem _ (ih h)
      · obtain ⟨c, hc, rfl⟩ := List.mem_map.mp h
        obtain ⟨rfl, _⟩ := mem_copyOn hc
        exact List.mem_cons_self

end

/-! ## Deliveries -/

section

variable {ops : List Op} {op : Op} {x : Rendering} {appenders : List AppenderId} {pending : List Copy}
  {met : List (LoggerId × List AppenderId)}

@[simp] theorem found_snoc : found (ops ++ [op]) = found ops ++ op.found?.toList := by
  cases h : op.found? <;> simp [found, h]

@[simp] theorem renderings_snoc : renderings (ops ++ [op]) = renderings ops ++ op.rendering?.toList := by
  cases h : op.rendering? <;> simp [renderings, h]

@[simp] theorem checks_snoc : checks (ops ++ [op]) = checks ops ++ op.check?.toList := by
  cases h : op.check? <;> simp [checks, h]

@[simp] theorem copies_snoc : copies (ops ++ [op]) = copies ops ++ op.copy?.toList := by
  cases h : op.copy? <;> simp [copies, h]

theorem rendering_eq_some : op.rendering? = some x ↔ op = .format x := by
  cases op <;> simp [Op.rendering?]

/-- The operation neither formats nor hands anything over. -/
structure Op.Quiet (op : Op) : Prop where
  found : op.found? = none
  rendering : op.rendering? = none
  check : op.check? = none
  copy : op.copy? = none

theorem Untouched.nil : Untouched [] [] := ⟨rfl, rfl, rfl, rfl⟩

theorem Untouched.quiet (h : Untouched ops met) (hop : op.Quiet) : Untouched (ops ++ [op]) met where
  found := by simpa [hop.found] using h.found
  renderings := by simpa [hop.rendering] using h.renderings
  checks := by simpa [hop.check] using h.checks
  copies := by simpa [hop.copy] using h.copies

theorem Handed.quiet (h : Handed ops x appenders pending) (hop : op.Quiet) :
    Handed (ops ++ [op]) x appenders pending where
  found := by simpa [hop.found] using h.found
  renderings := by simpa [hop.rendering] using h.renderings
  checks := by simpa [hop.check] using h.checks
  copies := by simpa [hop.check, hop.copy] using h.copies

theorem Complete.quiet (h : Complete ops) (hop : op.Quiet) : Complete (ops ++ [op]) := by
  rcases h with h | ⟨x, h⟩
  · exact .inl (h.quiet hop)
  · exact .inr ⟨x, h.quiet hop⟩

theorem Complete.started (h : Complete ops) : Started ops := by
  rcases h with h | ⟨x, h⟩
  · exact .inl ⟨[], h⟩
  · exact .inr ⟨x, x.appenders, [], List.prefix_refl _, Nat.zero_le _, h⟩

theorem Started.text_of_copy {c : Copy} (h : Started ops) (hc : .appended c ∈ ops) :
    ∃ x, Threads.renderings ops = [x] ∧ c.text = x.text := by
  have hmem : c ∈ Threads.copies ops := List.mem_filterMap.mpr ⟨_, hc, rfl⟩
  rcases h with ⟨_, h⟩ | ⟨x, appenders, pending, _, _, h⟩
  · rw [h.copies] at hmem
    cases hmem
  · have howed : c ∈ owed x.text (Threads.checks ops) := h.copies ▸ List.mem_append_left _ hmem
    obtain ⟨check, _, rfl⟩ := List.mem_map.mp howed
    exact ⟨x, h.renderings, rfl⟩

theorem Untouched.test (h : Untouched ops []) (task : Task) (logger : LoggerId) (appenders : List AppenderId) :
    Untouched (ops ++ [.test task logger appenders]) (Op.test task logger appenders).found?.toList where
  found := by simp [h.found]
  renderings := by simp [h.renderings, Op.rendering?]
  checks := by simp [h.checks, Op.check?]
  copies := by simp [h.copies, Op.copy?]

theorem Untouched.format {x : Rendering} (h : Untouched ops [(x.logger, x.appenders)]) :
    Handed (ops ++ [.format x]) x [] [] where
  found := by simp [h.found, Op.found?]
  renderings := by simp [h.renderings, Op.rendering?]
  checks := by simp [h.checks, Op.check?]
  copies := by simp [h.checks, h.copies, Op.check?, Op.copy?, owed]

theorem Handed.check (h : Handed ops x appenders []) (appender : AppenderId) (passed : Bool) :
    Handed (ops ++ [.check ⟨x.logger, appender, passed⟩]) x (appenders ++ [appender])
      (if passed then [⟨x.logger, appender, x.text⟩] else []) where
  found := by simp [h.found, Op.found?]
  renderings := by simp [h.renderings, Op.rendering?]
  checks := by simp [h.checks, Op.check?]
  copies := by
    have hcopies := (List.append_nil _).symm.trans h.copies
    cases passed <;> simp [hcopies, Op.check?, Op.copy?, owed]

theorem Handed.appended {c : Copy} (h : Handed ops x appenders [c]) : Handed (ops ++ [.appended c]) x appenders [] where
  found := by simp [h.found, Op.found?]
  renderings := by simp [h.renderings, Op.rendering?]
  checks := by simp [h.checks, Op.check?]
  copies := by simpa [Op.check?, Op.copy?] using h.copies

/-- A record that has been handed over met each appender of the list, which refused it or got its text. -/
theorem Handed.refused_or_appended (h : Handed ops x x.appenders [])
    {appender : AppenderId} (hmem : appender ∈ x.appenders) :
    .check ⟨x.logger, appender, false⟩ ∈ ops ∨ .appended ⟨x.logger, appender, x.text⟩ ∈ ops := by
  have hchecked : (x.logger, appender) ∈ (Threads.checks ops).map fun c => (c.logger, c.appender) := by
    rw [h.checks]
    exact List.mem_map_of_mem hmem
  obtain ⟨⟨logger, a, passed⟩, hcheck, heq⟩ := List.mem_map.mp hchecked
  cases heq
  cases passed with
  | false =>
      obtain ⟨op, hop, hcheck⟩ := List.mem_filterMap.mp hcheck
      cases op <;> cases hcheck
      exact .inl hop
  | true =>
      have hcopy : (⟨x.logger, a, x.text⟩ : Copy) ∈ Threads.copies ops := by
        rw [← List.append_nil (Threads.copies ops), h.copies]
        exact List.mem_map.mpr ⟨_, List.mem_filter.mpr ⟨hcheck, rfl⟩, rfl⟩
      obtain ⟨op, hop, hcopy⟩ := List.mem_filterMap.mp hcopy
      cases op <;> cases hcopy
      exact .inr hop

end

end Threads

end Pans
