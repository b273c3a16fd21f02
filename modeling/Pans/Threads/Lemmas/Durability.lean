import Pans.Threads.Lemmas.Files

/-!
# What a thread has handed over when it unlocks an appender

The thread flushes or syncs under the lock, as the last thing before it unlocks. Nobody else can write to the file
in between, so everything that the file has accepted by the unlock has been handed over, and stays so.
-/

namespace Pans

namespace Threads

/-- A thread that is about to unlock an appender has flushed its file, or synced it, unless the record it has written
was not FATAL. -/
def Pc.Secured (kind : AppenderId → Appender.Kind) (files : Files) : Pc → Prop
  | .unlockAppender d appender =>
      d.record.level = .fatal → (files appender).handed = (files appender).accepted
  | .visitUnlock how appender _ =>
      (files appender).handed = (files appender).accepted ∧
        (how = .sync → kind appender = .file → (files appender).synced = (files appender).accepted)
  | _ => True

section

variable {T τ : Type} {kind : AppenderId → Appender.Kind} {files files' : Files}
  {render : Formatter → LogRecordView → τ → Bytes × τ} {s : Shared T} {l l' : Local τ} {op : Op} {pc : Pc}

theorem secured_enter (call : Call) : call.enter.Secured kind files := by
  cases call with
  | route task => cases task <;> trivial
  | _ => trivial

/-- What is done to files does not matter where it leaves those alone that have handed over everything. -/
theorem Pc.Secured.congr (h : pc.Secured kind files)
    (hsame : ∀ a, pc.appender = some a → (files a).handed = (files a).accepted → files' a = files a) :
    pc.Secured kind files' := by
  cases pc with
  | unlockAppender d a =>
      intro hfatal
      rw [hsame a rfl (h hfatal)]
      exact h hfatal
  | visitUnlock how a caller =>
      rw [Secured, hsame a rfl h.1]
      exact h
  | _ => trivial

theorem next_secured (hvalid : ∀ a, (files a).Valid) (h : next render s l = some (op, l')) :
    l'.pc.Secured kind (files.run kind (l.pc.member op)) := by
  obtain ⟨pc, cache, calls⟩ := l
  cases pc <;> simp only [next] at h
  case write =>
      split at h
      · cases h
        trivial
      · split at h <;> cases h
        · trivial
        · rename_i hlevel
          exact fun hfatal => absurd hfatal hlevel
  case flushFatal d a =>
      cases h
      intro _
      rw [Pc.member, Files.run, Files.update_self]
      exact Appender.Kind.run_flushUnlocked (hvalid a)
  case visit how a caller =>
      cases h
      cases how
      · rw [Pc.member, Files.run]
        constructor
        · rw [Files.update_self]
          exact Appender.Kind.run_flushUnlocked (hvalid a)
        · intro hsync
          cases hsync
      · rw [Pc.member, Files.run]
        constructor
        · rw [Files.update_self]
          exact Appender.Kind.run_syncUnlocked (hvalid a)
        · intro _ hkind
          rw [Files.update_self, hkind]
          exact Appender.run_file_syncUnlocked (hvalid a)
  case testAppenders task _ | toRoot task _ =>
      split at h <;> cases h <;> cases task <;> trivial
  case readLevel | askLevel | loop | readAppenderLevel | visitLoop | visitUnlock =>
      split at h <;> cases h <;> trivial
  all_goals cases h <;> trivial

theorem Move.secured [DecidableEq T] {t : T} {s' : Shared T} {e : Event} (hvalid : ∀ a, (files a).Valid)
    (h : Move render t s l e s' l') : l'.pc.Secured kind (files.run kind (l.pc.member e.op)) := by
  cases h with
  | call call => exact secured_enter call
  | next hnext _ => exact next_secured hvalid hnext

theorem Move.number [DecidableEq T] {t : T} {s' : Shared T} {e : Event} (h : Move render t s l e s' l')
    (hbusy : l.pc ≠ .idle) : e.call = l.calls := by
  cases h with
  | call _ hidle => exact absurd hidle hbusy
  | next => rfl

theorem Op.At.releases {appender : AppenderId} (h : op.At s pc) (hop : op.Releases appender) :
    (∃ d, pc = .unlockAppender d appender) ∨ ∃ how caller, pc = .visitUnlock how appender caller := by
  cases op with
  | appended c =>
      obtain rfl : c.appender = appender := hop
      exact .inl h
  | unlock a =>
      obtain rfl : a = appender := hop
      exact .inr h
  | _ => exact hop.elim

end

namespace System

variable {T τ : Type} [DecidableEq T] {kind : AppenderId → Appender.Kind}
  {render : Formatter → LogRecordView → τ → Bytes × τ} {history : List (Label T)} {s : System T τ}

theorem secured_of_run (h : Run (Step kind render) Init history s) (t : T) :
    (s.process.threads t).pc.Secured kind s.files := by
  induction h generalizing t with
  | start h =>
      rw [h.process.idle]
      trivial
  | @extend _ s _ _ hrun hstep ih =>
      cases hstep with
      | @thread u e process hstep _ =>
          by_cases htu : t = u
          · subst htu
            exact hstep.own.secured (files_of_run hrun)
          · have hthread : process.threads t = s.process.threads t := hstep.others t htu
            refine congrArg Local.pc hthread ▸ (ih t).congr fun a ha _ => Files.run_other fun hu => htu ?_
            -- Both would hold the lock of the appender.
            have hvalid := valid_of_run (threads_of_run hrun)
            exact ((hvalid t).grants.appender a ha).unique ((hvalid u).grants.appender a hu)
      | spill b n =>
          refine (ih t).congr fun a _ hhanded => ?_
          rw [afterSpill_files, Files.update_same (WriteBack.spill_of_handed hhanded n)]
      | @destroy b _ _ =>
          refine (ih t).congr fun a _ hhanded => ?_
          rw [afterDestroy_files]
          exact Files.update_same (Appender.Kind.destroy_of_handed hhanded)

/-! ## The end of a critical section -/

/-- The run came to `s₁`, took the step there, and went on to `s`. -/
def Through (kind : AppenderId → Appender.Kind) (render : Formatter → LogRecordView → τ → Bytes × τ)
    (history : List (Label T)) (s : System T τ) (label : Label T) (s₁ : System T τ) : Prop :=
  ∃ later earlier s₂, history = later ++ label :: earlier ∧ Run (Step kind render) Init earlier s₁ ∧
    Step kind render s₁ label s₂ ∧ Run (Step kind render) (· = s₂) later s

theorem through_of_mem (h : Run (Step kind render) Init history s) {label : Label T} (hmem : label ∈ history) :
    ∃ s₁, Through kind render history s label s₁ := by
  obtain ⟨later, earlier, rfl⟩ := List.append_of_mem hmem
  obtain ⟨s₁, s₂, hearlier, hstep, hlater⟩ := h.around
  exact ⟨s₁, later, earlier, s₂, rfl, hearlier, hstep, hlater⟩

variable {s₁ : System T τ} {t : T} {n : Nat} {op : Op} {label : Label T}

theorem Through.extends (h : Through kind render history s label s₁) (a : AppenderId) :
    ∃ written, (s₁.files a).Extends written (s.files a) := by
  obtain ⟨later, earlier, s₂, _, hearlier, hstep, hlater⟩ := h
  have hvalid := files_of_run hearlier
  obtain ⟨written, hwritten⟩ := (extends_of_run hlater (hstep.valid hvalid)).2 a
  exact ⟨_, (hstep.extends hvalid a).trans hwritten⟩

/-- A thread in a call works on what it was called for. -/
theorem Through.task (hrun : Run (Step kind render) Init history s)
    (h : Through kind render history s (.thread t ⟨n, op⟩) s₁) {call : Call}
    (hcall : .call call ∈ trace t n (events history)) {task : Task}
    (htask : (s₁.process.threads t).pc.task = some task) : call.task = some task := by
  obtain ⟨later, earlier, s₂, heq, hearlier, hstep, _⟩ := h
  have hthreads := threads_of_run hearlier
  have hvalid := valid_of_run hthreads t
  have hbusy : (s₁.process.threads t).pc ≠ .idle := by
    intro hidle
    rw [hidle] at htask
    cases htask
  have hn : n = (s₁.process.threads t).calls := by
    cases hstep with
    | thread hstep _ => exact hstep.own.number hbusy
  subst hn
  obtain ⟨call', hcall'⟩ := hvalid.called hbusy
  have hmem : .thread t ⟨(s₁.process.threads t).calls, .call call'⟩ ∈ history := by
    rw [heq]
    exact List.mem_append_right _ (List.mem_cons_of_mem _ (mem_events.mp (mem_trace.mp hcall')))
  have hlast := mem_trace.mpr (mem_events.mpr hmem)
  rw [(engaged_of_run (threads_of_run hrun) t).single _ _ _ hcall hlast]
  exact (engaged_of_run hthreads t).task call' hcall' task htask

theorem Step.at {s' : System T τ} {e : Event} (h : Step kind render s (.thread t e) s') :
    e.op.At s.process.shared (s.process.threads t).pc := by
  cases h with
  | thread hstep _ => exact hstep.own.at

/-- What a file has accepted by the end of a critical section that flushes is handed over from then on. -/
theorem Through.handed (hrun : Run (Step kind render) Init history s)
    (h : Through kind render history s (.thread t ⟨n, op⟩) s₁) {appender : AppenderId} (hop : op.Releases appender)
    {call : Call} (hcall : .call call ∈ trace t n (events history)) :
    ((∃ record, call.task = some (.submit record) ∧ record.level = .fatal) →
      (s₁.files appender).accepted <+: (s.files appender).handed) ∧
    ∀ how, call.task = some (.visit how) → (s₁.files appender).accepted <+: (s.files appender).handed ∧
      (how = .sync → kind appender = .file → (s₁.files appender).accepted <+: (s.files appender).synced) := by
  obtain ⟨written, hextends⟩ := h.extends appender
  have htask {task : Task} : (s₁.process.threads t).pc.task = some task → call.task = some task := h.task hrun hcall
  obtain ⟨later, earlier, s₂, _, hearlier, hstep, _⟩ := h
  have hsecured := secured_of_run hearlier t
  rcases hstep.at.releases hop with ⟨d, hpc⟩ | ⟨how, caller, hpc⟩
  · rw [hpc] at hsecured htask
    have htask := htask rfl
    constructor
    · rintro ⟨record, hrecord, hfatal⟩
      cases htask.symm.trans hrecord
      exact hsecured hfatal ▸ hextends.handed
    · intro how hvisit
      cases htask.symm.trans hvisit
  · rw [hpc] at hsecured htask
    have htask := htask rfl
    constructor
    · rintro ⟨record, hrecord, _⟩
      cases htask.symm.trans hrecord
    · intro how' hvisit
      cases htask.symm.trans hvisit
      exact ⟨hsecured.1 ▸ hextends.handed, fun hsync hkind => hsecured.2 hsync hkind ▸ hextends.synced⟩

/-- An appender that is passed over has a level above that of the record. -/
theorem Through.refused (hrun : Run (Step kind render) Init history s) {c : Check}
    (h : Through kind render history s (.thread t ⟨n, .check c⟩) s₁) (hpassed : c.passed = false)
    {record : LogRecordView} {logger : LoggerId}
    (hcall : .call (.route (.submit record) logger) ∈ trace t n (events history)) :
    record.level.toU8 < (s₁.process.shared.appenders c.appender).level.toU8 := by
  have htask {task : Task} : (s₁.process.threads t).pc.task = some task → some (Task.submit record) = some task :=
    h.task hrun hcall
  obtain ⟨later, earlier, s₂, _, hearlier, hstep, _⟩ := h
  obtain ⟨d, hpc, hlevel⟩ := hstep.at
  rw [hpc] at htask
  cases htask rfl
  exact hlevel hpassed

end System

end Threads

end Pans
