import Pans.Logger.Lemmas.History

/-!
# The level OFF

OFF is the greatest level, so a threshold at OFF turns away every record of another level, and no threshold turns
away a record of level OFF.
-/

namespace Pans

open LogSystem

namespace LogLevel

theorem lt_off_iff {level : LogLevel} : level.toU8 < off.toU8 ↔ level ≠ off := by
  cases level <;> decide

theorem not_off_lt (level : LogLevel) : ¬off.toU8 < level.toU8 := by
  cases level <;> decide

end LogLevel

/-! ## Since OFF was set -/

namespace History

/-- The last level that was set is OFF. -/
theorem KeepsOff.findSome? {sets : Op → Option LogLevel} {op : Op} {later : List Op} (h : KeepsOff sets later)
    (hop : sets op = some .off) (earlier : List Op) : (later ++ op :: earlier).findSome? sets = some .off := by
  induction later with
  | nil => rw [List.nil_append, List.findSome?_cons, hop]
  | cons first later ih =>
      rw [List.cons_append, List.findSome?_cons]
      cases hfirst : sets first with
      | none => exact ih fun op hmem => h op (List.mem_cons_of_mem first hmem)
      | some level => rw [h first List.mem_cons_self level hfirst]

theorem KeepsOff.of_suffix {sets : Op → Option LogLevel} {since later : List Op} (h : KeepsOff sets later)
    (hsuffix : since <:+ later) : KeepsOff sets since :=
  fun op hmem => h op (hsuffix.subset hmem)

theorem KeepsOff.level {logger : LoggerId} {later : List Op} (h : KeepsOff (setsLevel logger) later)
    (earlier : List Op) : level (later ++ .setLevel logger .off :: earlier) logger = .off := by
  have hsets : setsLevel logger (.setLevel logger .off) = some .off := if_pos rfl
  rw [History.level, h.findSome? hsets, Option.getD_some]

theorem KeepsOff.appenderLevel {appender : AppenderId} {later : List Op}
    (h : KeepsOff (setsAppenderLevel appender) later) (earlier : List Op) :
    appenderLevel (later ++ .setAppenderLevel appender .off :: earlier) appender = .off := by
  have hsets : setsAppenderLevel appender (.setAppenderLevel appender .off) = some .off := if_pos rfl
  rw [History.appenderLevel, h.findSome? hsets, Option.getD_some]

/-- An appender at OFF is given no record of another level. -/
theorem delivered_to_off {history : List Op} {appender : AppenderId} (h : appenderLevel history appender = .off)
    (render : Formatter → LogRecordView → Bytes) (logger : LoggerId) {record : LogRecordView}
    (hrecord : record.level ≠ .off) : delivered render history logger record appender = [] := by
  have hlow : record.level.toU8 < (appenderLevel history appender).toU8 := by
    rw [h]
    exact LogLevel.lt_off_iff.mpr hrecord
  simp [delivered, hlow]

theorem KeepsOff.stream {appender : AppenderId} {later : List Op} (h : KeepsOff (setsAppenderLevel appender) later)
    (render : Formatter → LogRecordView → Bytes) (earlier : List Op)
    (hlogs : ∀ op ∈ later, ∀ logger, logs op ≠ some (logger, .off)) :
    stream render appender (later ++ .setAppenderLevel appender .off :: earlier) =
      stream render appender earlier := by
  induction later with
  | nil => rfl
  | cons op later ih =>
      have hlater : KeepsOff (setsAppenderLevel appender) later := h.of_suffix (List.suffix_cons op later)
      have hrest := ih hlater fun op' hmem => hlogs op' (List.mem_cons_of_mem op hmem)
      cases op with
      | log logger context level message =>
          have hlevel : level ≠ .off := fun hoff => hlogs _ List.mem_cons_self logger (by rw [logs, hoff])
          have hoff := hlater.appenderLevel earlier
          rw [List.cons_append, History.stream, delivered_to_off hoff render logger hlevel, List.append_nil]
          exact hrest
      | _ => exact hrest

end History

/-! ## A logger at OFF -/

section

variable {render : Formatter → LogRecordView → Bytes} {history : List Op} {sys : LogSystem} {logger : LoggerId}

/-- A logger whose level has been set exists. -/
theorem Agrees.lt_of_off (h : Agrees render history sys) (hoff : (sys.loggers logger).level = .off) :
    logger < sys.next := by
  by_contra hbeyond
  rw [h.fresh logger (Nat.le_of_not_lt hbeyond)] at hoff
  cases hoff

theorem log_unchanged (hoff : (sys.loggers logger).level = .off) (context : LogContext) {level : LogLevel}
    (hlevel : level ≠ .off) (message : Bytes) : sys.log render logger context level message = some sys := by
  have hlow : level.toU8 < (sys.loggers logger).level.toU8 := by
    rw [hoff]
    exact LogLevel.lt_off_iff.mpr hlevel
  simp only [LogSystem.log, LogSystem.submitRecord, Loggers.submit, Logger.Members.submit, LogContext.getRecord, hlow,
    if_true, Option.map_some]

end

end Pans
