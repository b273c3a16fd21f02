import Pans.Threads.Lemmas.Valid

/-!
# What a thread does belongs to its call

A call is one, and a thread submits, flushes or syncs only as the call says that it is in.
-/

namespace Pans

namespace Threads

def Call.task : Call → Option Task
  | route task _ => some task
  | visitAppender kind _ => some (.visit kind)
  | _ => none

def Pc.task : Pc → Option Task
  | readLevel record _ | format record _ => some (.submit record)
  | askLevel level _ => some (.shouldLog level)
  | lockShared task _ | testAppenders task _ | unlockEmpty task _ | toRoot task _ => some task
  | loop d | readAppenderLevel d _ | lockAppender d _ | write d _ _ | flushFatal d _ | unlockAppender d _ =>
      some (.submit d.record)
  | visitLoop kind _ _ | visitLock kind _ _ | visit kind _ _ | visitUnlock kind _ _ => some (.visit kind)
  | _ => none

/-- On the way from the entry of `Appender::flush` or `Appender::sync` to its unlock. -/
def Pc.Visits (kind : Visit) (appender : AppenderId) (pc : Pc) : Prop :=
  pc = .visitLock kind appender none ∨ pc = .visit kind appender none ∨ pc = .visitUnlock kind appender none

theorem enter_task (call : Call) {task : Task} (h : call.enter.task = some task) : call.task = some task := by
  cases call with
  | route task' => cases task' <;> exact h
  | visitAppender => exact h
  | _ => cases h

section

variable {T τ : Type} {render : Formatter → LogRecordView → τ → Bytes × τ} {s : Shared T} {l l' : Local τ} {op : Op}

theorem next_task (h : next render s l = some (op, l')) {task : Task} (htask : l'.pc.task = some task) :
    l.pc.task = some task := by
  obtain ⟨pc, cache, calls⟩ := l
  cases pc <;> simp only [next] at h
  case testAppenders task' _ =>
      split at h <;> cases h <;> cases task' <;> first | exact htask | cases htask
  case toRoot task' _ =>
      split at h <;> cases h
      · cases task' <;> exact htask
      · cases task' <;> cases htask
  case readLevel | askLevel | loop | readAppenderLevel | visitLoop | visitUnlock =>
      split at h <;> cases h <;> first | exact htask | cases htask
  case write =>
      split at h
      · cases h
        exact htask
      · split at h <;> cases h <;> exact htask
  all_goals cases h <;> exact htask

theorem next_visits (h : next render s l = some (op, l')) {kind : Visit} {appender : AppenderId}
    (hvisits : l.pc.Visits kind appender) :
    l'.pc.Visits kind appender ∨ op = .unlock appender := by
  rcases hvisits with hpc | hpc | hpc
  · rw [next, hpc] at h
    cases h
    exact .inl (.inr (.inl rfl))
  · rw [next, hpc] at h
    cases h
    exact .inl (.inr (.inr rfl))
  · rw [next, hpc] at h
    cases h
    exact .inr rfl

end

/-! ## In a run -/

/-- A call is made once; what the thread does is what its call asks for; and a call that flushes or syncs an
appender unlocks the appender before it returns. -/
structure Engaged {T τ : Type} [DecidableEq T] (history : List (T × Event)) (t : T) (l : Local τ) : Prop where
  single : ∀ n call call', .call call ∈ trace t n history → .call call' ∈ trace t n history → call = call'
  task : ∀ call, .call call ∈ trace t l.calls history → ∀ task, l.pc.task = some task → call.task = some task
  visits : ∀ kind appender, .call (.visitAppender kind appender) ∈ trace t l.calls history →
    l.pc.Visits kind appender ∨ .unlock appender ∈ trace t l.calls history
  visited : ∀ n kind appender, .ret ∈ trace t n history → .call (.visitAppender kind appender) ∈ trace t n history →
    .unlock appender ∈ trace t n history

section

variable {T τ : Type} [DecidableEq T] {render : Formatter → LogRecordView → τ → Bytes × τ}
  {history : List (T × Event)} {s s' : Shared T} {t u : T} {l l' : Local τ} {e : Event} {op : Op}

theorem Engaged.start (t : T) (l : Local τ) : Engaged [] t l where
  single _ _ _ hcall := absurd hcall List.not_mem_nil
  task _ hcall := absurd hcall List.not_mem_nil
  visits _ _ hcall := absurd hcall List.not_mem_nil
  visited _ _ _ hret := absurd hret List.not_mem_nil

theorem Engaged.call (h : Engaged history t l) (hvalid : Valid render history s t l) (call : Call) :
    Engaged ((t, ⟨l.calls + 1, .call call⟩) :: history) t { l with pc := call.enter, calls := l.calls + 1 } := by
  have hnow : trace t (l.calls + 1) ((t, ⟨l.calls + 1, .call call⟩) :: history) = [.call call] := by
    rw [trace_self, hvalid.trace_next, List.nil_append]
  constructor
  case single =>
      refine forall_trace (P := fun ops => ∀ c c', .call c ∈ ops → .call c' ∈ ops → c = c') h.single ?_
      rw [hvalid.trace_next]
      intro c c' hc hc'
      cases List.mem_singleton.mp hc
      cases List.mem_singleton.mp hc'
      rfl
  case task =>
      rw [hnow]
      intro c hc task htask
      cases List.mem_singleton.mp hc
      exact enter_task call htask
  case visits =>
      rw [hnow]
      intro kind appender hcall
      cases List.mem_singleton.mp hcall
      exact .inl (.inl rfl)
  case visited =>
      refine forall_trace (P := fun ops => ∀ kind appender, .ret ∈ ops → .call (.visitAppender kind appender) ∈ ops →
        .unlock appender ∈ ops) h.visited ?_
      rw [hvalid.trace_next]
      intro kind appender hret
      cases List.mem_singleton.mp hret

theorem Engaged.next (h : Engaged history t l) (hnext : next render s l = some (op, l')) :
    Engaged ((t, ⟨l.calls, op⟩) :: history) t l' := by
  have hspec := next_spec hnext
  have hnow : trace t l.calls ((t, ⟨l.calls, op⟩) :: history) = trace t l.calls history ++ [op] := trace_self
  have hop {call : Call} : .call call ∈ trace t l.calls history ++ [op] → .call call ∈ trace t l.calls history := by
    rw [List.mem_append, List.mem_singleton]
    exact fun hmem => hmem.resolve_right fun hcall => hspec.noCall _ hcall.symm
  constructor
  case single =>
      refine forall_trace (P := fun ops => ∀ c c', .call c ∈ ops → .call c' ∈ ops → c = c') h.single ?_
      exact fun c c' hc hc' => h.single _ c c' (hop hc) (hop hc')
  case task =>
      rw [hspec.calls, hnow]
      exact fun call hcall task htask => h.task call (hop hcall) task (next_task hnext htask)
  case visits =>
      rw [hspec.calls, hnow]
      intro kind appender hcall
      rcases h.visits kind appender (hop hcall) with hvisits | hunlock
      · rcases next_visits hnext hvisits with hvisits | rfl
        · exact .inl hvisits
        · exact .inr (List.mem_append_right _ (List.mem_singleton_self _))
      · exact .inr (List.mem_append_left _ hunlock)
  case visited =>
      refine forall_trace (P := fun ops => ∀ kind appender, .ret ∈ ops → .call (.visitAppender kind appender) ∈ ops →
        .unlock appender ∈ ops) h.visited ?_
      intro kind appender hret hcall
      refine List.mem_append_left _ ?_
      rcases List.mem_append.mp hret with hret | hret
      · exact h.visited _ kind appender hret (hop hcall)
      · rcases h.visits kind appender (hop hcall) with hvisits | hunlock
        · have hpc := (hspec.ret (List.mem_singleton.mp hret).symm).1
          rw [hpc] at hvisits
          rcases hvisits with hvisits | hvisits | hvisits <;> cases hvisits
        · exact hunlock

theorem Engaged.move (h : Engaged history t l) (hvalid : Valid render history s t l)
    (hmove : Move render t s l e s' l') : Engaged ((t, e) :: history) t l' := by
  cases hmove with
  | call call => exact h.call hvalid call
  | next hnext _ => exact h.next hnext

theorem Engaged.other (h : Engaged history t l) (htu : t ≠ u) : Engaged ((u, e) :: history) t l := by
  have hsame (n : Nat) : trace t n ((u, e) :: history) = trace t n history := trace_thread htu
  constructor <;> simp only [hsame]
  · exact h.single
  · exact h.task
  · exact h.visits
  · exact h.visited

theorem engaged_of_run {s : Process T τ} (h : Run (Step render) Init history s) (t : T) :
    Engaged history t (s.threads t) := by
  induction h generalizing t with
  | start => exact .start t _
  | @extend history s e s' hrun hstep ih =>
      obtain ⟨u, e⟩ := e
      by_cases htu : t = u
      · subst htu
        exact (ih t).move (valid_of_run hrun t) hstep.own
      · rw [hstep.others t htu]
        exact (ih t).other htu

end

end Threads

end Pans
