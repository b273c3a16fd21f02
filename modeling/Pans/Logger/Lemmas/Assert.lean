import Pans.Formatter.Lemmas.Format
import Pans.Logger.Assert
import Pans.Logger.Lemmas.Graph

/-!
# When a failed assertion comes back

Formatting comes back if no date item fails, or if the root logger drops FATAL records. Otherwise each failed
assertion logs a record that fails the same way, for as long as the clock stays in the same second.
-/

namespace Pans

/-! ## Formatting under a handler -/

section

variable {Tm σ : Type} {libc : Libc Tm} {onAssert : AssertHandler σ} {record : LogRecordView}

theorem exists_dateReady {items : List FormatItem} {cache : DateCache} {second : Int}
    (h : cache.lastSecond = second ∨
      ∀ format, firstDateFormat items = some format → (libc.dateText format second).isSome) :
    ∃ text, DateReady libc items second cache text := by
  by_cases hsecond : cache.lastSecond = second
  · exact ⟨_, DateReady.of_cached hsecond rfl⟩
  · rcases h with h | h
    · exact absurd h hsecond
    · cases hfirst : firstDateFormat items with
      | none =>
          refine ⟨[], fun format hformat => ?_⟩
          rw [hfirst] at hformat
          cases hformat
      | some format =>
          obtain ⟨text, htext⟩ := Option.isSome_iff_exists.mp (h format hfirst)
          refine ⟨text, fun format' hformat => ?_⟩
          rw [hfirst] at hformat
          cases hformat
          rw [if_neg hsecond]
          exact htext

theorem formatItems_returns (h : ∀ failure st, (onAssert failure st).isSome) (items : List FormatItem)
    (st : ThreadState σ) (output : Bytes) : (formatItems libc onAssert record items st output).isSome := by
  induction items generalizing st output with
  | nil => rfl
  | cons item items ih =>
      have hitem : (item.format libc onAssert record st output).isSome := by
        cases hdate : item.dateFormat with
        | none => rw [format_of_not_date hdate fun _ => [], Option.isSome_some]
        | some format =>
            cases item with
            | dateTime format =>
                rw [FormatItem.format]
                by_cases hsecond : st.cache.lastSecond = record.currentSecond
                · rw [formatDateTime_cached hsecond, Option.isSome_some]
                · cases htext : libc.dateText format record.currentSecond with
                  | some text =>
                      obtain ⟨_, _, _, hformat⟩ := formatDateTime_converted hsecond htext
                      rw [hformat, Option.isSome_some]
                  | none =>
                      obtain ⟨_, _, _, hformat⟩ := formatDateTime_failed hsecond htext
                      rw [hformat, assertRetNone, Option.isSome_map]
                      exact h _ _
            | _ => cases hdate
      obtain ⟨p, hp⟩ := Option.isSome_iff_exists.mp hitem
      rw [formatItems, hp, Option.bind_some]
      exact ih p.1 p.2

/-- Under a handler that does not come back, a first date item that fails does not either. -/
theorem formatItems_stuck {items : List FormatItem} {format : Bytes} {st : ThreadState σ} (output : Bytes)
    (hsecond : st.cache.lastSecond ≠ record.currentSecond) (hfirst : firstDateFormat items = some format)
    (htext : libc.dateText format record.currentSecond = none)
    (h : ∀ failure st', st'.cache.lastSecond = st.cache.lastSecond → onAssert failure st' = none) :
    formatItems libc onAssert record items st output = none := by
  induction items generalizing output with
  | nil => cases hfirst
  | cons item items ih =>
      rw [firstDateFormat, List.findSome?_cons] at hfirst
      rw [formatItems]
      cases hdate : item.dateFormat with
      | none =>
          rw [hdate] at hfirst
          rw [format_of_not_date hdate fun _ => [], Option.bind_some]
          exact ih _ hfirst
      | some format' =>
          rw [hdate] at hfirst
          cases hfirst
          cases item with
          | dateTime format =>
              cases hdate
              obtain ⟨failure, cache, hcache, hformat⟩ := formatDateTime_failed hsecond htext
              rw [FormatItem.format, hformat, assertRetNone, h _ _ hcache]
              rfl
          | _ => cases hdate

end

/-! ## The nested calls -/

section

variable {Tm : Type} {libc : Libc Tm} {loggers : Loggers} {root : LoggerId}
  {surroundings : Nat → LogContext × Bytes} {record : LogRecordView}

theorem shouldLog_root (happenders : (loggers root).appenders ≠ []) (fuel : Nat) (level : LogLevel) :
    loggers.shouldLog (fuel + 1) root level = some (!decide (level.toU8 < (loggers root).level.toU8)) := by
  rw [Loggers.shouldLog, Logger.Members.shouldLog]
  split
  · rename_i hlow
    simp [hlow]
  · rename_i hlevel
    simp [hlevel, happenders]

theorem submit_dropped {fuel : Nat} {st : ThreadState LogState}
    (hlow : record.level.toU8 < (loggers root).level.toU8) :
    submitAsserting libc loggers root surroundings (fuel + 1) root record st = some st := by
  rw [submitAsserting, Logger.Members.submit, if_pos hlow]

theorem submit_isSome {fuel : Nat} {st : ThreadState LogState} (happenders : (loggers root).appenders ≠ [])
    (hlevel : ¬record.level.toU8 < (loggers root).level.toU8) :
    (submitAsserting libc loggers root surroundings (fuel + 1) root record st).isSome =
      ((loggers root).formatter.format libc (assertFailed loggers root surroundings (fuel + 1)
        (submitAsserting libc loggers root surroundings fuel)) record st []).isSome := by
  have hown : (loggers root).appenders.isEmpty = false := by simpa using happenders
  simp only [submitAsserting, Logger.Members.submit, if_neg hlevel, hown, Bool.false_eq_true, if_false,
    Option.isSome_map]

/-- With the clock standing still, a record whose date fails is followed by records whose date fails. -/
theorem submit_stuck {format : Bytes} {context : LogContext} {second : Int}
    (happenders : (loggers root).appenders ≠ []) (hoff : (loggers root).level ≠ .off)
    (hclock : context.timestamp.toInt.tdiv 1000000000 = second)
    (hfirst : firstDateFormat (loggers root).formatter.items = some format)
    (htext : libc.dateText format second = none) (fuel : Nat) {record : LogRecordView}
    {st : ThreadState LogState} (hlevel : ¬record.level.toU8 < (loggers root).level.toU8)
    (hrecord : record.currentSecond = second) (hsecond : st.cache.lastSecond ≠ second) :
    submitAsserting libc loggers root (fun _ => (context, [])) fuel root record st = none := by
  induction fuel generalizing record st with
  | zero => rfl
  | succ fuel ih =>
      have hfatal : ¬LogLevel.fatal.toU8 < (loggers root).level.toU8 := fun h => hoff (LogLevel.fatal_lt_iff.mp h)
      have hstuck : ∀ failure (st' : ThreadState LogState), st'.cache.lastSecond = st.cache.lastSecond →
          assertFailed loggers root (fun _ => (context, [])) (fuel + 1)
            (submitAsserting libc loggers root (fun _ => (context, [])) fuel) failure st' = none := by
        intro failure st' hcache
        simp only [assertFailed, shouldLog_root happenders, hfatal, decide_false, Bool.not_false]
        exact ih hfatal hclock (hcache ▸ hsecond)
      rw [← Option.isNone_iff_eq_none, ← Option.not_isSome, submit_isSome happenders hlevel]
      rw [Formatter.format, formatItems_stuck [] (hrecord ▸ hsecond) hfirst (hrecord ▸ htext) hstuck]
      rfl

end

end Pans
