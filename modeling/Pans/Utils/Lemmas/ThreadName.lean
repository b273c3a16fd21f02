import Pans.Utils.ThreadName

/-!
# Views of thread names

A view is good exactly as long as `t_thread_name` is not assigned to. The induction is on the program.
-/

namespace Pans

namespace ThreadName

variable {K : Type} {pthread : Pthread K}

/-! ## The name and its native form -/

theorem use_named (s : State K) : (s.use pthread).named pthread = s.named pthread := by
  cases h : s.threadName <;> simp [State.use, State.named, h]

theorem use_assignments (s : State K) : (s.use pthread).assignments = s.assignments := by
  cases h : s.threadName <;> simp [State.use, h]

theorem assign_named (s : State K) (name : Bytes) :
    (s.assign pthread name).named pthread = { s.named pthread with name } := by
  cases h : s.threadName <;> simp [State.assign, State.use, State.named, h]

theorem getThreadName_eq (s : State K) :
    getThreadName pthread s = (s.use pthread, ⟨s.assignments, (s.named pthread).name⟩) := by
  cases h : s.threadName <;> simp [getThreadName, State.use, State.named, h]

/-- The copy stays within the array, and the zero behind it ends the string. -/
theorem setNativeThreadName_eq (kernel : K) (name : Bytes) :
    setNativeThreadName pthread kernel name = .done (pthread.setname kernel (nativeName name)) () := by
  have htake : name.take (min name.length (16 - 1)) = name.take 15 := by simp [List.take_eq_take_iff, Nat.min_comm]
  have hlength := List.length_take_le 15 name
  have hroom : 0 + (name.take 15).length ≤ 16 := by omega
  have harray : memcpy (CharArray.zeros 16) 0 (name.take 15) = .done (nativeName name).val () := by
    rw [memcpy, dif_pos hroom]
    congr 1
    apply Subtype.ext
    simp only [CharArray.zeros, nativeName, List.drop_replicate, List.take_zero, List.nil_append, Nat.zero_add]
  rw [setNativeThreadName, htake, harray, Outcome.onLocal, dif_pos (nativeName name).property]

/-! ## Lines -/

/-- The state after some code: what it is worth, and whether the name was assigned to. -/
structure Follows (pthread : Pthread K) (s : State K) (sets : Bool) (named : Named K) (s' : State K) : Prop where
  named : s'.named pthread = named
  unassigned : sets = false → s'.assignments = s.assignments
  assigned : sets = true → s.assignments < s'.assignments

theorem Follows.refl (s : State K) : Follows pthread s false (s.named pthread) s := ⟨rfl, fun _ => rfl, nofun⟩

theorem Follows.le {s s' : State K} {sets : Bool} {named : Named K} (h : Follows pthread s sets named s') :
    s.assignments ≤ s'.assignments := by
  cases sets with
  | false => exact Nat.le_of_eq (h.unassigned rfl).symm
  | true => exact Nat.le_of_lt (h.assigned rfl)

theorem Follows.trans {s s₁ s₂ : State K} {sets sets' : Bool} {named named' : Named K}
    (h : Follows pthread s sets named s₁) (h' : Follows pthread s₁ sets' named' s₂) :
    Follows pthread s (sets || sets') named' s₂ := by
  refine ⟨h'.named, fun hno => ?_, fun hyes => ?_⟩
  · obtain ⟨hno, hno'⟩ := Bool.or_eq_false_iff.mp hno
    rw [h'.unassigned hno', h.unassigned hno]
  · rcases Bool.or_eq_true_iff.mp hyes with hset | hset
    · exact Nat.lt_of_lt_of_le (h.assigned hset) h'.le
    · exact Nat.lt_of_le_of_lt h.le (h'.assigned hset)

theorem follows_use (s : State K) : Follows pthread s false (s.named pthread) (s.use pthread) :=
  ⟨use_named s, fun _ => use_assignments s, nofun⟩

variable {s s₁ : State K} {sets thrown : Bool} {named : Named K} {visibility : Visibility}
  {body : State K → Outcome (State K) Unit}

theorem record_named (s : State K) (name : Bytes) :
    State.named pthread { s with records := s.records ++ [name] } =
      { s.named pthread with records := (s.named pthread).records ++ [name] } := rfl

theorem logLine_eq :
    logLine pthread visibility body s =
      (body (s.use pthread)).leaving (submit visibility ⟨s.assignments, (s.named pthread).name⟩) := by
  rw [logLine, getThreadName_eq]

/-- The line is submitted with the name that it was built with. -/
theorem logLine_follows (hbody : body (s.use pthread) = .ended s₁ thrown)
    (h : Follows pthread (s.use pthread) sets named s₁) (hgood : (visibility.writesName && sets) = false) :
    ∃ s', logLine pthread visibility body s = .ended s' thrown ∧
      Follows pthread s sets (named.record visibility (s.named pthread).name) s' := by
  have hfollows : Follows pthread s sets named s₁ := by
    have := (follows_use s).trans h
    rwa [Bool.false_or] at this
  rw [logLine_eq, hbody]
  cases hwrites : visibility.writesName with
  | false =>
      refine ⟨s₁, Outcome.leaving_ended thrown ?_, ?_⟩
      · simp [submit, hwrites]
      · rwa [Named.record, hwrites]
  | true =>
      rw [hwrites, Bool.true_and] at hgood
      have hsame : s.assignments = s₁.assignments := (hfollows.unassigned hgood).symm
      refine ⟨{ s₁ with records := s₁.records ++ [(s.named pthread).name] }, Outcome.leaving_ended thrown ?_, ?_⟩
      · simp [submit, hwrites, hsame]
      · refine ⟨?_, hfollows.unassigned, hfollows.assigned⟩
        rw [record_named, hfollows.named, Named.record, hwrites, if_pos rfl]

theorem logLine_dangles (hbody : body (s.use pthread) = .ended s₁ thrown)
    (h : Follows pthread (s.use pthread) sets named s₁) (hbad : (visibility.writesName && sets) = true) :
    logLine pthread visibility body s = .undefined := by
  obtain ⟨hwrites, hsets⟩ := Bool.and_eq_true_iff.mp hbad
  have hlt := h.assigned hsets
  rw [use_assignments] at hlt
  have hsubmit : submit visibility ⟨s.assignments, (s.named pthread).name⟩ s₁ = .undefined := by
    simp [submit, hwrites, Nat.ne_of_lt hlt]
  rw [logLine_eq, hbody]
  cases thrown <;> simp [Outcome.ended, Outcome.leaving, Outcome.bind, hsubmit]

variable (pthread) in
/-- A line that nothing is inserted into, or whose operands are evaluated already. -/
theorem emptyLine_follows (visibility : Visibility) (s : State K) :
    ∃ s', (if visibility.shown then logLine pthread visibility (fun s => .done s ()) s else .done s ()) =
        .ended s' false ∧
      Follows pthread s false
        (if visibility.shown then (s.named pthread).record visibility (s.named pthread).name else s.named pthread) s' := by
  split
  · have hfollows : Follows pthread (s.use pthread) false (s.named pthread) (s.use pthread) :=
      ⟨use_named s, fun _ => rfl, nofun⟩
    have hbody : (Outcome.done (s.use pthread) () : Outcome (State K) Unit) = .ended (s.use pthread) false := rfl
    exact logLine_follows hbody hfollows (Bool.and_false _)
  · exact ⟨s, rfl, .refl s⟩

/-! ## Programs -/

theorem record_kernel (s : Named K) (visibility : Visibility) (name : Bytes) :
    (if visibility.shown then s.record visibility name else s).kernel = s.kernel := by
  rw [Named.record]
  split
  · split <;> rfl
  · rfl

variable (pthread) in
theorem assign_follows (s : State K) (name : Bytes) :
    Follows pthread s true { s.named pthread with name } (s.assign pthread name) :=
  ⟨assign_named s name, nofun, fun _ => Nat.lt_succ_self _⟩

theorem setThreadName_follows (name : Bytes) (assertion : Visibility) (s : State K) :
    ∃ s', setThreadName pthread name assertion s = .ended s' false ∧
      Follows pthread s true ((Command.setThreadName name assertion).names pthread (s.named pthread)) s' := by
  by_cases hname : name = []
  · obtain ⟨s₁, hlog, hfollows⟩ := emptyLine_follows pthread assertion s
    have hkernel : s₁.kernel = s.kernel := (congrArg Named.kernel hfollows.named).trans (record_kernel _ _ _)
    let native := getNativeThreadName pthread s.kernel
    refine ⟨s₁.assign pthread (if native = [] then defaultThreadName else native), ?_, ?_⟩
    · rw [setThreadName, if_pos hname, hlog]
      simp only [Outcome.ended, Bool.false_eq_true, if_false, Outcome.bind, hkernel, native]
    · have hassign := hfollows.trans (assign_follows pthread s₁ (if native = [] then defaultThreadName else native))
      rw [hfollows.named, Bool.false_or] at hassign
      rw [Command.names, if_pos hname]
      exact hassign
  · obtain ⟨hnamed, hunassigned, hassigned⟩ := assign_follows pthread s name
    refine ⟨{ s.assign pthread name with kernel := pthread.setname s.kernel (nativeName name) }, ?_, ?_⟩
    · rw [setThreadName, if_neg hname]
      have hkernel : (s.assign pthread name).kernel = s.kernel := congrArg Named.kernel hnamed
      simp only [setNativeThreadName_eq, Outcome.within, hkernel]
      rfl
    · refine ⟨?_, hunassigned, hassigned⟩
      rw [Command.names, if_neg hname]
      have hrecords : (s.use pthread).records = s.records := congrArg Named.records (use_named s)
      simp only [State.named, State.assign, Option.getD_some, hrecords]

mutual
theorem Command.run_safe : (command : Command) → command.safe = true → ∀ s : State K,
    ∃ s', command.run pthread s = .ended s' command.throws ∧
      Follows pthread s command.sets (command.names pthread (s.named pthread)) s'
  | .setThreadName name assertion, _, s => setThreadName_follows name assertion s
  | .throw, _, s => ⟨s, rfl, .refl s⟩
  | .attempt body, h, s => by
      obtain ⟨s', hbody, hfollows⟩ := body.run_safe h s
      refine ⟨s', ?_, hfollows⟩
      exact Outcome.tryCatch_eq_ended.mpr ⟨⟨_, hbody⟩, rfl⟩
  | .statement visibility operands, h, s => by
      rw [Command.run, Command.throws, Command.sets, Command.names]
      cases hshown : visibility.shown with
      | false => exact ⟨s, rfl, .refl s⟩
      | true =>
          rw [Command.safe, hshown, Bool.not_true, Bool.false_or, Bool.and_eq_true, Bool.not_eq_true'] at h
          obtain ⟨s₁, hoperands, hfollows⟩ := operands.run_safe h.1 (s.use pthread)
          rw [use_named] at hfollows
          exact logLine_follows hoperands hfollows h.2
  | .format visibility arguments, h, s => by
      rw [Command.run, Command.throws, Command.sets, Command.names]
      cases hshown : visibility.shown with
      | false => exact ⟨s, rfl, .refl s⟩
      | true =>
          rw [Command.safe, hshown, Bool.not_true, Bool.false_or] at h
          obtain ⟨s₁, harguments, hfollows⟩ := arguments.run_safe h s
          simp only [if_true, Bool.true_and, harguments]
          cases hthrows : arguments.throws with
          | true => exact ⟨s₁, rfl, hfollows⟩
          | false =>
              obtain ⟨s₂, hline, hfollows'⟩ := emptyLine_follows pthread visibility s₁
              rw [hshown] at hline hfollows'
              have hboth := hfollows.trans hfollows'
              rw [hfollows.named, Bool.or_false] at hboth
              exact ⟨s₂, hline, hboth⟩

theorem Block.run_safe : (block : Block) → block.safe = true → ∀ s : State K,
    ∃ s', block.run pthread s = .ended s' block.throws ∧
      Follows pthread s block.sets (block.names pthread (s.named pthread)) s'
  | .nil, _, s => ⟨s, rfl, .refl s⟩
  | .cons command rest, h, s => by
      rw [Block.safe, Bool.and_eq_true] at h
      obtain ⟨s₁, hcommand, hfollows⟩ := command.run_safe h.1 s
      rw [Block.run, Block.throws, Block.sets, Block.names, hcommand]
      cases hthrows : command.throws with
      | true =>
          refine ⟨s₁, rfl, ?_⟩
          simpa using hfollows
      | false =>
          rw [hthrows, Bool.false_or] at h
          obtain ⟨s₂, hrest, hfollows'⟩ := rest.run_safe h.2 s₁
          rw [hfollows.named] at hfollows'
          exact ⟨s₂, hrest, hfollows.trans hfollows'⟩
end

mutual
theorem Command.run_unsafe : (command : Command) → command.safe = false → ∀ s : State K,
    command.run pthread s = .undefined
  | .setThreadName _ _, h, _ => by cases h
  | .throw, h, _ => by cases h
  | .attempt body, h, s => by
      rw [Command.run, body.run_unsafe h s]
      rfl
  | .statement visibility operands, h, s => by
      rw [Command.safe, Bool.or_eq_false_iff, Bool.not_eq_false'] at h
      rw [Command.run, if_pos h.1]
      cases hsafe : operands.safe with
      | false =>
          rw [logLine_eq, operands.run_unsafe hsafe]
          rfl
      | true =>
          have hbad := h.2
          rw [hsafe, Bool.true_and, Bool.not_eq_false'] at hbad
          obtain ⟨s₁, hoperands, hfollows⟩ := operands.run_safe hsafe (s.use pthread)
          exact logLine_dangles hoperands hfollows hbad
  | .format visibility arguments, h, s => by
      rw [Command.safe, Bool.or_eq_false_iff, Bool.not_eq_false'] at h
      rw [Command.run, if_pos h.1, arguments.run_unsafe h.2]
      rfl

theorem Block.run_unsafe : (block : Block) → block.safe = false → ∀ s : State K,
    block.run pthread s = .undefined
  | .nil, h, _ => by cases h
  | .cons command rest, h, s => by
      rw [Block.run]
      cases hsafe : command.safe with
      | false =>
          rw [command.run_unsafe hsafe]
          rfl
      | true =>
          rw [Block.safe, hsafe, Bool.true_and, Bool.or_eq_false_iff] at h
          obtain ⟨s₁, hcommand, _⟩ := command.run_safe hsafe s
          rw [hcommand, h.1]
          exact rest.run_unsafe h.2 s₁
end

/-! ## The native name -/

theorem cString_terminated (s rest : Bytes) : cString (s ++ 0 :: rest) = cString s := by
  induction s with
  | nil => simp [cString]
  | cons b s ih =>
      simp only [cString] at ih
      by_cases hb : b = 0
      · simp [cString, hb]
      · simpa [cString, hb] using ih

theorem cString_nativeName (name : Bytes) : cString (nativeName name).val.val = cString (name.take 15) := by
  have hlength := List.length_take_le 15 name
  obtain ⟨n, hn⟩ : ∃ n, 16 - (name.take 15).length = n + 1 := ⟨15 - (name.take 15).length, by omega⟩
  have harray : (nativeName name).val.val = name.take 15 ++ 0 :: List.replicate n 0 := by
    rw [← List.replicate_succ, ← hn]
    rfl
  rw [harray, cString_terminated]

/-- A native name has at most 15 characters, none of them a NUL. -/
theorem nativeThreadName_short (kernel : K) :
    cString ((getNativeThreadName pthread kernel).take 15) = getNativeThreadName pthread kernel := by
  rw [getNativeThreadName]
  split
  · rfl
  · rename_i nativeName _
    obtain ⟨⟨array, hlength⟩, hterminated⟩ := nativeName
    obtain ⟨s, rest, rfl⟩ := List.append_of_mem hterminated
    have hshort : (cString s).length ≤ 15 := by
      have hprefix : (cString s).length ≤ s.length := (List.takeWhile_prefix _).length_le
      simp only [List.length_append, List.length_cons] at hlength
      omega
    rw [cString_terminated, List.take_of_length_le hshort]
    exact List.takeWhile_idem

theorem Named.Agrees.record {s : Named K} (h : s.Agrees pthread) (visibility : Visibility) (name : Bytes) :
    (s.record visibility name).Agrees pthread := by
  rw [Named.record]
  split <;> exact h

mutual
theorem Command.names_agrees (hpthread : pthread.Faithful) : (command : Command) → ∀ {s : Named K}, s.Agrees pthread →
    (command.names pthread s).Agrees pthread
  | .setThreadName name assertion, s, h => by
      rw [Command.names]
      split
      · simp only [Named.Agrees, record_kernel]
        by_cases hnative : getNativeThreadName pthread s.kernel = []
        · exact .inr ⟨if_pos hnative, hnative⟩
        · rw [if_neg hnative]
          exact .inl (nativeThreadName_short _).symm
      · refine .inl ?_
        simp only [getNativeThreadName, hpthread _ _]
        exact cString_nativeName name
  | .throw, s, h => h
  | .attempt body, s, h => body.names_agrees hpthread h
  | .statement visibility operands, s, h => by
      rw [Command.names]
      split
      · exact (operands.names_agrees hpthread h).record visibility s.name
      · exact h
  | .format visibility arguments, s, h => by
      rw [Command.names]
      have harguments := arguments.names_agrees hpthread h
      split
      · simp only
        split
        · exact harguments
        · exact harguments.record visibility _
      · exact h

theorem Block.names_agrees (hpthread : pthread.Faithful) : (block : Block) → ∀ {s : Named K}, s.Agrees pthread →
    (block.names pthread s).Agrees pthread
  | .nil, s, h => h
  | .cons command rest, s, h => by
      rw [Block.names]
      split
      · exact command.names_agrees hpthread h
      · exact rest.names_agrees hpthread (command.names_agrees hpthread h)
end

end ThreadName

end Pans
