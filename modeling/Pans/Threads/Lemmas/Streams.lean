import Pans.Threads.Lemmas.Valid

/-!
# Streams of appenders

A stream holds entire records, and then as much of one more as the holder of the lock has written.
-/

namespace Pans

namespace Threads

/-- What a thread in `append` has written of its text. -/
def Pc.partialText (appender : AppenderId) : Pc → Bytes
  | .write d a written => if a = appender then d.text.take written else []
  | .flushFatal d a | .unlockAppender d a => if a = appender then d.text else []
  | _ => []

def Op.written (appender : AppenderId) : Op → Bytes
  | write _ a byte => if a = appender then [byte] else []
  | _ => []

def Op.completed (appender : AppenderId) (op : Op) : Bytes := ((op.copyOn appender).map (·.text)).flatten

theorem partialText_of_ne {appender : AppenderId} {pc : Pc} (h : pc.appendsTo ≠ some appender) :
    pc.partialText appender = [] := by
  cases pc with
  | write | flushFatal | unlockAppender => exact if_neg fun ha => h (congrArg some ha)
  | _ => rfl

theorem appendsTo_ne {appender : AppenderId} {pc : Pc} (h : pc.appender ≠ some appender) :
    pc.appendsTo ≠ some appender := by
  cases pc with
  | write | flushFatal | unlockAppender => exact h
  | _ => nofun

theorem partialText_of_none {appender : AppenderId} {pc : Pc} (h : pc.appender = none) :
    pc.partialText appender = [] :=
  partialText_of_ne (appendsTo_ne (h ▸ nofun))

theorem partialText_enter (appender : AppenderId) (call : Call) : call.enter.partialText appender = [] :=
  partialText_of_none (congrArg Held.appender (enter_held call))

section

variable {T τ : Type} {render : Formatter → LogRecordView → τ → Bytes × τ} {s : Shared T} {l l' : Local τ} {op : Op}
  {appender : AppenderId}

/-- What a thread writes is what it has begun or completes. -/
theorem next_partialText (h : next render s l = some (op, l')) :
    l.pc.partialText appender ++ op.written appender = op.completed appender ++ l'.pc.partialText appender := by
  obtain ⟨pc, cache, calls⟩ := l
  cases pc <;> simp only [next] at h
  case lockAppender d a =>
      cases h
      simp [Pc.partialText, Op.written, Op.completed, Op.copyOn, Op.copy?]
  case write d a written =>
      split at h
      · rename_i byte hbyte
        cases h
        by_cases ha : a = appender
        · simp [Pc.partialText, Op.written, Op.completed, Op.copyOn, Op.copy?, ha, List.take_add_one, hbyte]
        · simp [Pc.partialText, Op.written, Op.completed, Op.copyOn, Op.copy?, ha]
      · rename_i hend
        have hall := List.take_of_length_le (List.getElem?_eq_none_iff.mp hend)
        split at h <;> cases h <;>
          simp [Pc.partialText, Op.written, Op.completed, Op.copyOn, Op.copy?, hall]
  case unlockAppender d a =>
      cases h
      by_cases ha : a = appender <;>
        simp [Pc.partialText, Op.written, Op.completed, Op.copyOn, Op.copy?, ha]
  case testAppenders task logger =>
      split at h <;> cases h
      · rfl
      · cases task <;> rfl
  case toRoot task logger =>
      split at h <;> cases h <;> cases task <;> rfl
  case readLevel | askLevel | loop | readAppenderLevel | visitLoop | visitUnlock =>
      split at h <;> cases h <;> rfl
  case flushFatal =>
      cases h
      exact List.append_nil _
  all_goals cases h <;> rfl

end

section

variable {T : Type} [DecidableEq T] {s s' : Shared T} {t : T} {op : Op} {appender : AppenderId}

theorem run_stream (h : op.run t s = some s') :
    (s'.appenders appender).stream = (s.appenders appender).stream ++ op.written appender := by
  cases op with
  | write logger a byte =>
      cases h
      rcases eq_or_ne appender a with rfl | hne
      · simp [Shared.onAppender, Appender.Impl.writeUnlocked, Op.written]
      · simp [Shared.onAppender, Op.written, hne, hne.symm]
  | setAppenderLevel a level =>
      cases h
      rcases eq_or_ne appender a with rfl | hne
      · simp [Shared.onAppender, Appender.Impl.setLevel, Op.written]
      · simp [Shared.onAppender, Op.written, hne]
  | lockShared | unlockShared | lock | appended | unlock | lockExclusive | unlockExclusive =>
      obtain ⟨m, hm, rfl⟩ := Option.map_eq_some_iff.mp h
      exact (List.append_nil _).symm
  | _ =>
      cases h
      exact (List.append_nil _).symm

theorem written_eq_nil {held : Held} (hneeds : op.Needs held) (h : held.appender ≠ some appender) :
    op.written appender = [] := by
  cases op with
  | write logger a byte =>
      refine if_neg ?_
      rintro rfl
      exact h hneeds.2
  | _ => rfl

theorem completed_eq_nil {held : Held} (hneeds : op.Needs held) (h : held.appender ≠ some appender) :
    op.completed appender = [] := by
  cases op with
  | appended c =>
      have hne : c.appender ≠ appender := by
        rintro rfl
        exact h hneeds.2
      simp [Op.completed, Op.copyOn, Op.copy?, hne]
  | _ => rfl

end

theorem Move.partialText {T τ : Type} [DecidableEq T] {render : Formatter → LogRecordView → τ → Bytes × τ}
    {s s' : Shared T} {t : T} {l l' : Local τ} {e : Event} (h : Move render t s l e s' l') (appender : AppenderId) :
    l.pc.partialText appender ++ e.op.written appender = e.op.completed appender ++ l'.pc.partialText appender := by
  cases h with
  | call call hidle =>
      rw [hidle, partialText_enter]
      rfl
  | next hnext _ => exact next_partialText hnext

theorem after_releases {op : Op} {appender : AppenderId} {held : Held} (h : op.Releases appender) :
    (op.after held).appender = none := by
  cases op with
  | unlock | appended => rfl
  | _ => exact h.elim

/-! ## In a run -/

section

variable {T τ : Type} {s : Process T τ} {appender : AppenderId}

/-- What the holder of the lock has written of its text. -/
def pending (s : Process T τ) (appender : AppenderId) : Bytes :=
  match (s.shared.appenderMutex appender).owner with
  | none => []
  | some t => (s.threads t).pc.partialText appender

theorem pending_eq_nil (h : ∀ t, (s.threads t).pc.appendsTo ≠ some appender) : pending s appender = [] := by
  unfold pending
  split
  · rfl
  · exact partialText_of_ne (h _)

theorem pending_of_held {t : T} (h : (s.shared.appenderMutex appender).Held t) :
    pending s appender = (s.threads t).pc.partialText appender := by
  rw [pending, h]

theorem pending_of_free (h : (s.shared.appenderMutex appender).owner = none) : pending s appender = [] := by
  rw [pending, h]

end

section

variable {T τ : Type} [DecidableEq T] {render : Formatter → LogRecordView → τ → Bytes × τ}
  {history : List (T × Event)} {s s' : Process T τ} {appender : AppenderId}

theorem Valid.partialText_eq_nil {history : List (T × Event)} {s : Shared T} {t : T} {l : Local τ}
    (h : Valid render history s t l) (hfree : ¬(s.appenderMutex appender).Held t) :
    l.pc.partialText appender = [] :=
  partialText_of_ne (appendsTo_ne fun happender => hfree (h.grants.appender _ happender))

/-- Whoever takes the step, what goes to the stream is what was pending or completes a record. -/
theorem pending_step {e : T × Event} (hvalid : Valid render history s.shared e.1 (s.threads e.1))
    (hstep : Step render s e s') :
    pending s appender ++ e.2.op.written appender = e.2.op.completed appender ++ pending s' appender := by
  obtain ⟨u, e⟩ := e
  obtain ⟨hmove, hothers⟩ := hstep
  have hlaw := hmove.partialText appender
  by_cases hheld : (s.shared.appenderMutex appender).Held u
  · rw [pending_of_held hheld, hlaw]
    rcases run_appenderMutex hmove.run appender with hsame | ⟨_, hlock⟩ | ⟨hreleases, hunlock⟩
    · rw [pending_of_held (hsame ▸ hheld)]
    · exact absurd hheld (Mutex.lock_free hlock)
    · have hreleased : (s'.threads u).pc.appender = none :=
        (congrArg Held.appender hmove.held).trans (after_releases hreleases)
      rw [pending_of_free (congrArg Mutex.owner (Mutex.unlock_free hunlock)), partialText_of_none hreleased]
  · have hnone : (s.threads u).pc.held.appender ≠ some appender := fun happender =>
      hheld (hvalid.grants.appender _ happender)
    have hwritten := written_eq_nil hmove.needs hnone
    have hcompleted := completed_eq_nil hmove.needs hnone
    rw [hwritten, hcompleted, List.append_nil, List.nil_append]
    rw [hvalid.partialText_eq_nil hheld, hwritten, hcompleted] at hlaw
    rcases run_appenderMutex hmove.run appender with hsame | ⟨_, hlock⟩ | ⟨_, hunlock⟩
    · unfold pending
      rw [hsame]
      split
      · rfl
      · rename_i v howner
        rw [hothers v]
        rintro rfl
        exact hheld howner
    · rw [pending_of_free (Mutex.lock_owner hlock), pending_of_held (Mutex.lock_held hlock)]
      exact hlaw
    · exact absurd (Mutex.unlock_held hunlock) hheld

theorem stream_of_run (h : Run (Step render) Init history s) (appender : AppenderId) :
    (s.shared.appenders appender).stream = recordsText (entries appender history) ++ pending s appender := by
  induction h with
  | start hinit =>
      rw [hinit.stream, pending_of_free (congrArg Mutex.owner (hinit.appenderMutex appender))]
      rfl
  | @extend history s e s' hrun hstep ih =>
      rw [run_stream hstep.own.run, ih, List.append_assoc, pending_step (valid_of_run hrun e.1) hstep,
        ← List.append_assoc, recordsText_cons, Op.completed]

/-! ## Order -/

theorem Move.calls_le {s s' : Shared T} {t : T} {l l' : Local τ} {e : Event} (h : Move render t s l e s' l') :
    l.calls ≤ e.call := by
  cases h with
  | call => exact Nat.le_succ _
  | next => exact Nat.le_refl _

theorem entries_ordered (h : Run (Step render) Init history s) (appender : AppenderId) (t : T) :
    ((entries appender history).filter (·.thread = t)).Pairwise (·.call ≤ ·.call) := by
  induction h with
  | start => exact .nil
  | @extend history s e s' hrun hstep ih =>
      obtain ⟨u, e⟩ := e
      rw [entries, List.filter_append, List.pairwise_append]
      refine ⟨ih, ?_, ?_⟩
      · refine List.Pairwise.filter _ (List.pairwise_map.mpr (List.pairwise_of_forall ?_))
        exact fun _ _ => Nat.le_refl _
      · intro old hold new hnew
        obtain ⟨hold, hthread⟩ := List.mem_filter.mp hold
        obtain ⟨hnew, hthread'⟩ := List.mem_filter.mp hnew
        obtain ⟨c, _, rfl⟩ := List.mem_map.mp hnew
        have hu : old.thread = u := by
          simp only [decide_eq_true_eq] at hthread hthread'
          rw [hthread, hthread']
        have hnumbered := (valid_of_run hrun u).numbered _ (hu ▸ mem_entries hold)
        exact Nat.le_trans hnumbered hstep.own.calls_le

end

end Threads

end Pans
