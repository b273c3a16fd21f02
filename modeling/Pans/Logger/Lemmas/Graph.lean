import Pans.Logger.Graph

/-!
# The four members that follow the root links

Each of them, on a chain that ends, does its work at the target of the chain.
-/

namespace Pans

namespace Loggers

variable {S : Type} {loggers : Loggers}

/-! ## The target and the way to it -/

theorem target_own {logger : LoggerId} {chain : List LoggerId} (h : (loggers logger).appenders.isEmpty = false) :
    loggers.target (logger :: chain) = some logger := by
  rw [target, List.find?_cons, h]
  rfl

theorem target_root {logger : LoggerId} {chain : List LoggerId} (h : (loggers logger).appenders.isEmpty = true) :
    loggers.target (logger :: chain) = loggers.target chain := by
  rw [target, List.find?_cons, h]
  rfl

theorem target_appenders {chain : List LoggerId} {logger : LoggerId} (h : loggers.target chain = some logger) :
    (loggers logger).appenders ≠ [] := by
  have := List.find?_some h
  simpa using this

theorem admits_own {logger : LoggerId} {chain : List LoggerId} {level : LogLevel}
    (h : (loggers logger).appenders.isEmpty = false) :
    loggers.Admits (logger :: chain) level ↔ ¬level.toU8 < (loggers logger).level.toU8 := by
  simp [Admits, way, h]

theorem admits_root {logger : LoggerId} {chain : List LoggerId} {level : LogLevel}
    (h : (loggers logger).appenders.isEmpty = true) :
    loggers.Admits (logger :: chain) level ↔
      ¬level.toU8 < (loggers logger).level.toU8 ∧ loggers.Admits chain level := by
  simp [Admits, way, h]

theorem admits_nil (level : LogLevel) : loggers.Admits [] level := by
  simp [Admits, way]

theorem target_singleton (logger : LoggerId) :
    loggers.target [logger] = if (loggers logger).appenders = [] then none else some logger := by
  cases hown : (loggers logger).appenders.isEmpty with
  | true =>
      rw [target_root hown, if_pos (List.isEmpty_iff.mp hown)]
      rfl
  | false =>
      rw [target_own hown, if_neg]
      simpa using hown

theorem admits_singleton (logger : LoggerId) (level : LogLevel) :
    loggers.Admits [logger] level ↔ ¬level.toU8 < (loggers logger).level.toU8 := by
  cases hown : (loggers logger).appenders.isEmpty with
  | true => simp only [admits_root hown, admits_nil, and_true]
  | false => exact admits_own hown

theorem Admits.head {logger : LoggerId} {chain : List LoggerId} {level : LogLevel}
    (h : loggers.Admits (logger :: chain) level) : ¬level.toU8 < (loggers logger).level.toU8 := by
  cases hown : (loggers logger).appenders.isEmpty with
  | true => exact ((admits_root hown).mp h).1
  | false => exact (admits_own hown).mp h

/-! ## Running along the chain -/

section

variable {logger : LoggerId} {chain : List LoggerId} {fuel : Nat}

theorem shouldLog_eq (h : loggers.RootChain (some logger) chain) (hfuel : chain.length ≤ fuel) (level : LogLevel) :
    loggers.shouldLog fuel logger level =
      some (decide (loggers.Admits chain level ∧ (loggers.target chain).isSome)) := by
  induction chain generalizing logger fuel with
  | nil => cases h
  | cons first chain ih =>
      cases h with
      | link h =>
          obtain ⟨fuel, rfl⟩ := Nat.exists_eq_add_one.mpr (Nat.lt_of_lt_of_le (Nat.succ_pos _) hfuel)
          rw [shouldLog, Logger.Members.shouldLog]
          split
          · rename_i hlow
            have hno : ¬loggers.Admits (first :: chain) level := fun hadmits => hadmits.head hlow
            simp [hno]
          · rename_i hlevel
            cases hown : (loggers first).appenders.isEmpty with
            | false => simp [admits_own hown, target_own hown, hlevel]
            | true =>
                simp only [admits_root hown, target_root hown, hlevel, not_false_eq_true, true_and]
                cases hroot : (loggers first).root with
                | none =>
                    rw [hroot] at h
                    cases h
                    rfl
                | some root =>
                    rw [hroot] at h
                    exact ih h (Nat.le_of_succ_le_succ hfuel)

/-- A record that is let through is formatted once and handed to the appenders of the target. -/
theorem submit_eq {format : LoggerId → Formatter → LogRecordView → S → Option (S × Bytes)}
    {append : LoggerId → AppenderId → LogLevel → Bytes → S → S} (h : loggers.RootChain (some logger) chain)
    (hfuel : chain.length ≤ fuel) (record : LogRecordView) (s : S) :
    loggers.submit format append fuel logger record s =
      match loggers.target chain with
      | none => some s
      | some target =>
          if loggers.Admits chain record.level then
            (format target (loggers target).formatter record s).map fun p =>
              (loggers target).appenders.foldl (fun s appender => append target appender record.level p.2 s) p.1
          else some s := by
  induction chain generalizing logger fuel with
  | nil => cases h
  | cons first chain ih =>
      cases h with
      | link h =>
          obtain ⟨fuel, rfl⟩ := Nat.exists_eq_add_one.mpr (Nat.lt_of_lt_of_le (Nat.succ_pos _) hfuel)
          rw [submit, Logger.Members.submit]
          split
          · rename_i hlow
            have hno : ¬loggers.Admits (first :: chain) record.level := fun hadmits => hadmits.head hlow
            simp only [if_neg hno]
            split <;> rfl
          · rename_i hlevel
            cases hown : (loggers first).appenders.isEmpty with
            | false => simp [admits_own hown, target_own hown, hlevel]
            | true =>
                simp only [admits_root hown, target_root hown, hlevel, not_false_eq_true, true_and, if_true]
                cases hroot : (loggers first).root with
                | none =>
                    rw [hroot] at h
                    cases h
                    rfl
                | some root =>
                    rw [hroot] at h
                    exact ih h (Nat.le_of_succ_le_succ hfuel)

/-- The macros do what a bare `submit` does. -/
theorem logLevel_eq_submit {format : LoggerId → Formatter → LogRecordView → S → Option (S × Bytes)}
    {append : LoggerId → AppenderId → LogLevel → Bytes → S → S} (h : loggers.RootChain (some logger) chain)
    (hfuel : chain.length ≤ fuel) (record : LogRecordView) (s : S) :
    loggers.logLevel format append fuel logger record s = loggers.submit format append fuel logger record s := by
  rw [logLevel, shouldLog_eq h hfuel, submit_eq h hfuel]
  cases loggers.target chain with
  | none => simp
  | some target =>
      by_cases hadmits : loggers.Admits chain record.level
      · simp [hadmits]
      · simp [hadmits]

theorem flush_eq {flushAppender : LoggerId → AppenderId → S → S} (h : loggers.RootChain (some logger) chain)
    (hfuel : chain.length ≤ fuel) (s : S) :
    loggers.flush flushAppender fuel logger s =
      match loggers.target chain with
      | none => some s
      | some target =>
          some ((loggers target).appenders.foldl (fun s appender => flushAppender target appender s) s) := by
  induction chain generalizing logger fuel with
  | nil => cases h
  | cons first chain ih =>
      cases h with
      | link h =>
          obtain ⟨fuel, rfl⟩ := Nat.exists_eq_add_one.mpr (Nat.lt_of_lt_of_le (Nat.succ_pos _) hfuel)
          rw [flush, Logger.Members.flush]
          cases hown : (loggers first).appenders.isEmpty with
          | false => simp [target_own hown]
          | true =>
              simp only [target_root hown, if_true]
              cases hroot : (loggers first).root with
              | none =>
                  rw [hroot] at h
                  cases h
                  rfl
              | some root =>
                  rw [hroot] at h
                  exact ih h (Nat.le_of_succ_le_succ hfuel)

/-- `sync` is a second text of the walk of `flush`. -/
theorem sync_eq_flush (visit : LoggerId → AppenderId → S → S) (fuel : Nat) (logger : LoggerId) (s : S) :
    loggers.sync visit fuel logger s = loggers.flush visit fuel logger s := by
  induction fuel generalizing logger with
  | zero => rfl
  | succ fuel ih =>
      rw [sync, flush, Logger.Members.sync, Logger.Members.flush]
      simp only [ih]

end

end Loggers

end Pans
