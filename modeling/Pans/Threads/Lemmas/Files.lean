import Pans.Threads.Files
import Pans.Threads.Lemmas.Calls
import Pans.Threads.Lemmas.Removal
import Pans.Threads.Lemmas.Streams

/-!
# What the files of a run hold

A member that writes or flushes runs under the lock of its appender. So what a thread has flushed stays flushed
until it unlocks: another thread would need the lock to write.
-/

namespace Pans

namespace Threads

/-! ## Members -/

section

variable {pc : Pc} {op : Op} {appender : AppenderId}

theorem member_appender {member : Appender.Member} (h : pc.member op = some (appender, member)) :
    pc.appender = some appender := by
  cases pc with
  | write d a written =>
      cases op <;> cases h
      rfl
  | flushFatal =>
      cases h
      rfl
  | visit kind =>
      cases kind <;> cases h <;> rfl
  | _ => cases h

theorem pointer_of_appender (h : pc.appender = some appender) : pc.pointer? = some appender := by
  cases pc with
  | write | flushFatal | unlockAppender | visit | visitUnlock => exact h
  | _ => cases h

variable {T τ : Type} {render : Formatter → LogRecordView → τ → Bytes × τ} {s : Shared T} {l l' : Local τ}

/-- What a step writes, it writes by the member that it calls. -/
theorem next_member (h : next render s l = some (op, l')) (appender : AppenderId) :
    op.written appender = ((l.pc.member op).elim [] fun p => if p.1 = appender then p.2.written else []) := by
  obtain ⟨pc, cache, calls⟩ := l
  cases pc <;> simp only [next] at h
  case write d a written =>
      split at h
      · cases h
        rfl
      · split at h <;> cases h <;> rfl
  case flushFatal d a =>
      cases h
      exact (ite_self []).symm
  case visit kind a caller =>
      cases h
      cases kind <;> exact (ite_self []).symm
  case readLevel | askLevel | testAppenders | toRoot | loop | readAppenderLevel | visitLoop | visitUnlock =>
      split at h <;> cases h <;> rfl
  all_goals cases h <;> rfl

theorem Move.member [DecidableEq T] {t : T} {s' : Shared T} {e : Event} (h : Move render t s l e s' l')
    (appender : AppenderId) :
    e.op.written appender = ((l.pc.member e.op).elim [] fun p => if p.1 = appender then p.2.written else []) := by
  cases h with
  | call call hidle =>
      rw [hidle]
      rfl
  | next hnext _ => exact next_member hnext appender

end

/-! ## One step -/

section

variable {kind : AppenderId → Appender.Kind} {files : Files} {pc : Pc} {op : Op} {appender : AppenderId}

theorem Files.update_self (files : Files) (appender : AppenderId) (f : File → File) :
    files.update appender f appender = f (files appender) := Function.update_self _ _ _

theorem Files.update_other {a : AppenderId} (h : a ≠ appender) (f : File → File) :
    files.update appender f a = files a := Function.update_of_ne h _ _

/-- A file on which the operation does nothing stays as it is. -/
theorem Files.update_same {a : AppenderId} {f : File → File} (h : f (files a) = files a) :
    files.update appender f a = files a := by
  rcases eq_or_ne a appender with rfl | hne
  · rw [Files.update_self, h]
  · exact Files.update_other hne f

theorem Files.update_valid (hvalid : ∀ a, (files a).Valid) (f : File → File) (hf : (f (files appender)).Valid)
    (a : AppenderId) : (files.update appender f a).Valid := by
  rcases eq_or_ne a appender with rfl | hne
  · rwa [Files.update_self]
  · rw [Files.update_other hne]
    exact hvalid a

theorem Files.update_extends (f : File → File) (hf : (files appender).Extends [] (f (files appender)))
    (a : AppenderId) : (files a).Extends [] (files.update appender f a) := by
  rcases eq_or_ne a appender with rfl | hne
  · rwa [Files.update_self]
  · rw [Files.update_other hne]
    exact .refl _

theorem Files.run_valid (hvalid : ∀ a, (files a).Valid) (a : AppenderId) :
    (files.run kind (pc.member op) a).Valid := by
  cases pc.member op with
  | none => exact hvalid a
  | some p => exact Files.update_valid hvalid _ (Appender.Kind.run_valid (hvalid p.1) p.2) a

theorem Files.run_extends (hvalid : ∀ a, (files a).Valid) (a : AppenderId) :
    (files a).Extends ((pc.member op).elim [] fun p => if p.1 = a then p.2.written else [])
      (files.run kind (pc.member op) a) := by
  cases pc.member op with
  | none => exact .refl _
  | some p =>
      rw [Option.elim_some, Files.run]
      rcases eq_or_ne a p.1 with rfl | hne
      · rw [if_pos rfl, Files.update_self]
        exact Appender.Kind.run_extends (hvalid _) _
      · rw [if_neg hne.symm, Files.update_other hne]
        exact .refl _

/-- A step leaves the file of an appender alone whose lock its thread does not hold. -/
theorem Files.run_other (h : pc.appender ≠ some appender) :
    files.run kind (pc.member op) appender = files appender := by
  cases hmember : pc.member op with
  | none => rfl
  | some p =>
      have hne : appender ≠ p.1 := by
        rintro rfl
        exact h (member_appender hmember)
      exact Files.update_other hne _

end

/-! ## Steps of the system -/

@[simp] theorem events_thread {T : Type} (t : T) (e : Event) (history : List (Label T)) :
    events (.thread t e :: history) = (t, e) :: events history := rfl

@[simp] theorem events_spill {T : Type} (appender : AppenderId) (n : Nat) (history : List (Label T)) :
    events (.spill appender n :: history) = events history := rfl

@[simp] theorem events_destroy {T : Type} (appender : AppenderId) (history : List (Label T)) :
    events (.destroy appender :: history) = events history := rfl

theorem mem_events {T : Type} {t : T} {e : Event} {history : List (Label T)} :
    (t, e) ∈ events history ↔ .thread t e ∈ history := by
  rw [events, List.mem_filterMap]
  constructor
  · rintro ⟨label, hmem, hlabel⟩
    cases label <;> cases hlabel
    exact hmem
  · exact fun h => ⟨_, h, rfl⟩

def Label.written {T : Type} (appender : AppenderId) : Label T → Bytes
  | thread _ e => e.op.written appender
  | _ => []

namespace System

variable {T τ : Type} [DecidableEq T] {kind : AppenderId → Appender.Kind}
  {render : Formatter → LogRecordView → τ → Bytes × τ} {history : List (Label T)} {label : Label T}
  {s s' : System T τ} {appender : AppenderId}

theorem threads_of_run (h : Run (Step kind render) Init history s) :
    Run (Threads.Step render) Threads.Init (events history) s.process := by
  induction h with
  | start h => exact .start h.process
  | extend _ hstep ih =>
      cases hstep with
      | thread hstep _ => exact .extend ih hstep
      | spill | destroy => exact ih

theorem Step.valid (h : Step kind render s label s') (hvalid : ∀ a, (s.files a).Valid) (a : AppenderId) :
    (s'.files a).Valid := by
  cases h with
  | thread => exact Files.run_valid hvalid a
  | spill appender n => exact Files.update_valid hvalid (·.spill n) ((hvalid appender).spill n) a
  | destroy => exact Files.update_valid hvalid _ (Appender.Kind.destroy_valid (hvalid _)) a

theorem files_of_run (h : Run (Step kind render) Init history s) (a : AppenderId) : (s.files a).Valid := by
  refine h.invariant (I := fun _ s => ∀ a, (s.files a).Valid) ?_ ?_ a
  · intro s hinit a
    rw [hinit.files]
    exact WriteBack.valid_empty
  · intro history s label s' hvalid hstep
    exact hstep.valid hvalid

/-- A file accepts what a step writes, and what the system or the disk has stays there. -/
theorem Step.extends (h : Step kind render s label s') (hvalid : ∀ a, (s.files a).Valid) (a : AppenderId) :
    (s.files a).Extends (label.written a) (s'.files a) := by
  cases h with
  | thread hstep _ =>
      rw [Label.written, hstep.own.member a]
      exact Files.run_extends hvalid a
  | spill appender n => exact Files.update_extends (·.spill n) (WriteBack.extends_spill _ n) a
  | destroy => exact Files.update_extends _ Appender.Kind.destroy_extends a

theorem extends_of_run {s₁ : System T τ} (h : Run (Step kind render) (· = s₁) history s)
    (hvalid : ∀ a, (s₁.files a).Valid) :
    (∀ a, (s.files a).Valid) ∧ ∀ a, ∃ written, (s₁.files a).Extends written (s.files a) := by
  induction h with
  | start h =>
      subst h
      exact ⟨hvalid, fun a => ⟨[], .refl _⟩⟩
  | extend _ hstep ih =>
      obtain ⟨hvalid, hextends⟩ := ih
      refine ⟨hstep.valid hvalid, fun a => ?_⟩
      obtain ⟨written, hwritten⟩ := hextends a
      exact ⟨_, hwritten.trans (hstep.extends hvalid a)⟩

/-- The stream of an appender is what its file has accepted. -/
theorem accepted_of_run (h : Run (Step kind render) Init history s) (a : AppenderId) :
    (s.files a).accepted = (s.process.shared.appenders a).stream := by
  induction h with
  | start h =>
      rw [h.files, h.process.stream]
      rfl
  | extend hrun hstep ih =>
      rw [(hstep.extends (files_of_run hrun) a).accepted, ih]
      cases hstep with
      | thread hstep _ => exact (run_stream hstep.own.run).symm
      | spill | destroy => exact List.append_nil _

end System

/-! ## Appenders that have been destroyed -/

section

variable {T τ : Type} {render : Formatter → LogRecordView → τ → Bytes × τ} {s s' : Shared T} {l l' : Local τ} {op : Op}
  {appender : AppenderId}

/-- A thread gets a pointer to an appender from the list of a logger. -/
theorem next_pointer (h : next render s l = some (op, l')) (hpointer : l'.pc.pointer? = some appender) :
    l.pc.pointer? = some appender ∨ ∃ logger, appender ∈ (s.loggers logger).appenders := by
  obtain ⟨pc, cache, calls⟩ := l
  cases pc <;> simp only [next] at h
  case loop | visitLoop =>
      split at h <;> cases h
      · rename_i hfound
        cases hpointer
        exact .inr ⟨_, List.mem_of_getElem? hfound⟩
      · cases hpointer
  case readLevel | askLevel =>
      split at h <;> cases h <;> cases hpointer
  case testAppenders task _ | toRoot task _ =>
      split at h <;> cases h <;> cases task <;> cases hpointer
  case readAppenderLevel =>
      split at h <;> cases h
      · cases hpointer
      · exact .inl hpointer
  case write =>
      split at h
      · cases h
        exact .inl hpointer
      · split at h <;> cases h <;> exact .inl hpointer
  case visitUnlock =>
      split at h <;> cases h <;> cases hpointer
  case lock c | apply c =>
      cases h
      cases c <;> exact .inl hpointer
  all_goals cases h <;> first | exact .inl hpointer | cases hpointer

variable [DecidableEq T] {t : T} {e : Event}

theorem Move.pointer (h : Move render t s l e s' l') (hpointer : l'.pc.pointer? = some appender) :
    (∃ call ∈ e.op.call?, call.enter.pointer? = some appender) ∨ l.pc.pointer? = some appender ∨
      ∃ logger, appender ∈ (s.loggers logger).appenders := by
  cases h with
  | call call => exact .inl ⟨call, rfl, hpointer⟩
  | next hnext _ => exact .inr (next_pointer hnext hpointer)

/-- Without a pointer to an appender, a thread gets none, unless it is called with one. -/
theorem Unreferenced.step {s s' : Process T τ} (h : Unreferenced s appender)
    (hstep : Threads.Step render s (t, e) s')
    (hcall : ∀ call ∈ e.op.call?, call.enter.pointer? ≠ some appender) : Unreferenced s' appender where
  loggers logger := by
    refine run_absent hstep.own.run (h.loggers logger) fun happly => h.threads t ?_
    have hat : e.op.At s.shared (s.threads t).pc := hstep.own.at
    rw [happly] at hat
    rw [hat]
    rfl
  threads := by
    refine Interleaving.forall_of_others (P := fun _ l => l.pc.pointer? ≠ some appender) hstep.others ?_
      fun u _ => h.threads u
    intro hpointer
    rcases hstep.own.pointer hpointer with ⟨call, hop, hcall'⟩ | hpointer | ⟨logger, hlogger⟩
    · exact hcall call hop hcall'
    · exact h.threads t hpointer
    · exact h.loggers logger hlogger

end

namespace System

variable {T τ : Type} [DecidableEq T] {kind : AppenderId → Appender.Kind}
  {render : Formatter → LogRecordView → τ → Bytes × τ} {history : List (Label T)} {s : System T τ}
  {appender : AppenderId}

/-- Nothing refers to an appender that has been destroyed, and its file has handed over everything. -/
structure Gone (kind : AppenderId → Appender.Kind) (s : System T τ) (appender : AppenderId) : Prop where
  unreferenced : Unreferenced s.process appender
  handed : kind appender = .file → (s.files appender).handed = (s.files appender).accepted

theorem gone_of_run (h : Run (Step kind render) Init history s) :
    ∀ appender ∈ s.destroyed, Gone kind s appender := by
  induction h with
  | start h =>
      rw [h.destroyed]
      nofun
  | @extend _ s _ _ hrun hstep ih =>
      cases hstep with
      | @thread t e _ hstep hcall =>
          intro appender hmem
          obtain ⟨hunreferenced, hhanded⟩ := ih appender hmem
          refine ⟨hunreferenced.step hstep fun call hop => hcall call hop appender hmem, ?_⟩
          rw [afterThread_files, Files.run_other fun h => hunreferenced.threads t (pointer_of_appender h)]
          exact hhanded
      | spill a n =>
          intro appender hmem
          obtain ⟨hunreferenced, hhanded⟩ := ih appender hmem
          refine ⟨hunreferenced, fun hkind => ?_⟩
          rw [afterSpill_files, Files.update_same (WriteBack.spill_of_handed (hhanded hkind) n)]
          exact hhanded hkind
      | @destroy a hnew hunreferenced =>
          intro appender hmem
          rcases List.mem_cons.mp hmem with rfl | hmem
          · refine ⟨hunreferenced, fun hkind => ?_⟩
            rw [afterDestroy_files, Files.update_self, hkind]
            exact Appender.destroy_file (files_of_run hrun _)
          · obtain ⟨hunreferenced, hhanded⟩ := ih appender hmem
            have hne : appender ≠ a := fun h => hnew (h ▸ hmem)
            refine ⟨hunreferenced, fun hkind => ?_⟩
            rw [afterDestroy_files, Files.update_other hne]
            exact hhanded hkind

end System

end Threads

end Pans
