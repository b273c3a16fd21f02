import Pans.Threads.Lemmas.Files
import Pans.Threads.Volume

/-!
# What shared files contain
-/

namespace Pans

namespace Threads

section

variable {T τ : Type} [DecidableEq T] {names : FileNames} {render : Formatter → LogRecordView → τ → Bytes × τ}
  {history : List (Label T)} {label : Label T} {old : Bytes → Bytes}

/-- A step works on one stream at most. -/
theorem System.Step.files_other {kind : AppenderId → Appender.Kind} {s s' : System T τ} {appender : AppenderId}
    (h : System.Step kind render s label s') (hother : s.appender? label ≠ some appender) :
    s'.files appender = s.files appender := by
  cases h with
  | @thread t e process hstep _ =>
      rw [System.afterThread_files]
      rw [System.appender?] at hother
      cases hmember : (s.process.threads t).pc.member e.op with
      | none => rfl
      | some p =>
          rw [hmember] at hother
          exact Files.update_other (fun h => hother (congrArg some h.symm)) _
  | spill a n => exact Files.update_other (fun h => hother (congrArg some h.symm)) (·.spill n)
  | destroy => exact Files.update_other (fun h => hother (congrArg some h.symm)) _

namespace Volume

variable {v v' : Volume T τ} {file : Bytes}

theorem system_of_run (h : Run (Step names render) (Init old) history v) :
    Run (System.Step names.kind render) System.Init history v.system := by
  induction h with
  | start h => exact .start h.system
  | extend _ hstep ih =>
      cases hstep with
      | step hstep => exact .extend ih hstep

/-- A file that a step does not append to stays as it is. -/
theorem appendTo_other {content : Bytes → Bytes} {p : Option (Bytes × Bytes)} (h : ∀ q ∈ p, q.1 ≠ file) :
    appendTo content p file = content file := by
  cases p with
  | none => rfl
  | some q => exact Function.update_of_ne (h q rfl).symm _ _

theorem appendTo_self (content : Bytes → Bytes) (bytes : Bytes) :
    appendTo content (some (file, bytes)) file = content file ++ bytes := Function.update_self _ _ _

theorem prefix_appendTo (content : Bytes → Bytes) (p : Option (Bytes × Bytes)) (file : Bytes) :
    content file <+: appendTo content p file := by
  by_cases h : ∃ bytes, p = some (file, bytes)
  · obtain ⟨bytes, rfl⟩ := h
    rw [appendTo_self]
    exact List.prefix_append _ _
  · rw [appendTo_other]
    rintro q rfl heq
    exact h ⟨q.2, by rw [← heq]⟩

omit [DecidableEq T] in
/-- What an appender has handed over to its file, it had before or hands over now. -/
theorem handed_append {system : System T τ} {appender : AppenderId}
    (h : (v.system.files appender).handed <+: (system.files appender).handed) :
    (v.system.files appender).handed ++ v.handedOver system appender = (system.files appender).handed :=
  List.prefix_iff_eq_append.mp h

/-! ## In a run -/

theorem Step.merges (h : Step names render v label v') (hvalid : ∀ a, (v.system.files a).Valid) {added : Bytes}
    (hmerges : Merges (v.handedTo names file) added) :
    ∃ more, v'.content file = v.content file ++ more ∧ Merges (v'.handedTo names file) (added ++ more) := by
  obtain ⟨hstep⟩ := h
  rename_i system
  have hsame (a : AppenderId) (ha : v.system.appender? label ≠ some a ∨ names a ≠ some file) :
      (v.after names label system).handedTo names file a = v.handedTo names file a := by
    unfold handedTo
    split
    · rename_i hname
      rw [after_system, hstep.files_other (ha.resolve_right (not_not_intro hname))]
    · rfl
  by_cases hown : ∃ a, v.system.appender? label = some a ∧ names a = some file
  · obtain ⟨a, happender, hname⟩ := hown
    refine ⟨v.handedOver system a, ?_, hmerges.append (i := a) ?_ fun b hb => hsame b (.inl ?_)⟩
    · rw [after_content, appends?, happender, Option.bind_some, hname, Option.map_some, appendTo_self]
    · rw [handedTo, handedTo, if_pos hname, if_pos hname, handed_append (hstep.extends hvalid a).handed, after_system]
    · rw [happender]
      exact fun heq => hb (Option.some.inj heq).symm
  · refine ⟨[], ?_, ?_⟩
    · rw [List.append_nil]
      refine appendTo_other fun q hq heq => ?_
      obtain ⟨a, happender, hmap⟩ := Option.bind_eq_some_iff.mp hq
      obtain ⟨file', hname, rfl⟩ := Option.map_eq_some_iff.mp hmap
      exact hown ⟨a, happender, hname.trans (congrArg some heq)⟩
    · rw [List.append_nil]
      refine hmerges.congr fun a => hsame a ?_
      by_contra hboth
      simp only [not_or, not_not] at hboth
      exact hown ⟨a, hboth⟩

/-- A file holds what it held before, and then what its appenders have handed over, each in its order. -/
theorem merges_of_run (h : Run (Step names render) (Init old) history v) (file : Bytes) :
    ∃ added, v.content file = old file ++ added ∧ Merges (v.handedTo names file) added := by
  induction h with
  | start h =>
      refine ⟨[], by rw [h.content, List.append_nil], Merges.nil fun a => ?_⟩
      rw [handedTo, h.system.files]
      exact ite_self _
  | extend hrun hstep ih =>
      obtain ⟨added, hcontent, hmerges⟩ := ih
      obtain ⟨more, hmore, hmerges⟩ := hstep.merges (System.files_of_run (system_of_run hrun)) hmerges
      exact ⟨added ++ more, by rw [hmore, hcontent, List.append_assoc], hmerges⟩

/-! ## On the disk -/

theorem Step.content_prefix (h : Step names render v label v') (file : Bytes) :
    v.content file <+: v'.content file := by
  cases h
  exact prefix_appendTo _ _ _

theorem Step.durable (h : Step names render v label v') (file : Bytes) :
    v'.durable file = v.durable file ∨ v'.durable file = v'.content file := by
  cases h
  rw [after_durable]
  cases v.system.syncs? names label with
  | none => exact .inl rfl
  | some synced =>
      rcases eq_or_ne file synced with rfl | hne
      · exact .inr (Function.update_self _ _ _)
      · exact .inl (Function.update_of_ne hne _ _)

/-- What is on the disk stays there, and is in the file. -/
theorem durable_of_run {init : Volume T τ → Prop} (h : Run (Step names render) init history v) (file : Bytes)
    {lower : Bytes} (hinit : ∀ v, init v → lower <+: v.durable file ∧ v.durable file <+: v.content file) :
    lower <+: v.durable file ∧ v.durable file <+: v.content file := by
  induction h with
  | start h => exact hinit _ h
  | @extend _ v _ v' _ hstep ih =>
      have hcontent := ih.2.trans (hstep.content_prefix file)
      rcases hstep.durable file with hsame | hsynced
      · exact hsame ▸ ⟨ih.1, hcontent⟩
      · rw [hsynced]
        exact ⟨ih.1.trans hcontent, List.prefix_refl _⟩

theorem Step.syncs (h : Step names render v label v') (hsyncs : v.system.syncs? names label = some file) :
    v'.durable file = v'.content file := by
  cases h
  rw [after_durable, hsyncs]
  exact Function.update_self _ _ _

end Volume

end

end Threads

end Pans
