import Pans.Threads.Lemmas.Locks
import Pans.Threads.Lemmas.Trace

/-!
# How far a call has come

At each place of its program, a thread has formatted the record or not, and has handed it to the appenders up to
its index. The list it goes by is the list of the logger: nobody else can change that while it holds the lock.
-/

namespace Pans

namespace Threads

def Delivery.rendering (loggers : Loggers) (d : Delivery) : Rendering :=
  ⟨d.logger, (loggers d.logger).formatter, (loggers d.logger).appenders, d.record, d.text⟩

/-- The operations of the current call of a thread, at each place of its program. -/
def Progress (loggers : Loggers) (ops : List Op) : Pc → Prop
  | .idle => Started ops
  | .format _ logger => Untouched ops [(logger, (loggers logger).appenders)]
  | .loop d => Handed ops (d.rendering loggers) ((loggers d.logger).appenders.take d.index) []
  | .readAppenderLevel d appender =>
      (loggers d.logger).appenders[d.index]? = some appender ∧
        Handed ops (d.rendering loggers) ((loggers d.logger).appenders.take d.index) []
  | .lockAppender d appender | .write d appender _ | .flushFatal d appender | .unlockAppender d appender =>
      (loggers d.logger).appenders[d.index]? = some appender ∧
        Handed ops (d.rendering loggers) ((loggers d.logger).appenders.take (d.index + 1))
          [⟨d.logger, appender, d.text⟩]
  | .unlockShared _ | .ret => Complete ops
  | _ => Untouched ops []

theorem Progress.started {loggers : Loggers} {ops : List Op} {pc : Pc} (h : Progress loggers ops pc) :
    Started ops := by
  cases pc with
  | idle => exact h
  | loop d => exact .inr ⟨_, _, _, List.take_prefix _ _, Nat.zero_le _, h⟩
  | readAppenderLevel => exact .inr ⟨_, _, _, List.take_prefix _ _, Nat.zero_le _, h.2⟩
  | lockAppender | write | flushFatal | unlockAppender =>
      exact .inr ⟨_, _, _, List.take_prefix _ _, Nat.le_refl _, h.2⟩
  | unlockShared | ret => exact Complete.started h
  | _ => exact .inl ⟨_, h⟩

/-- Only the formatter and the appenders of a logger matter whose lock the thread holds. -/
theorem Progress.congr {loggers loggers' : Loggers} {ops : List Op} {pc : Pc} (h : Progress loggers ops pc)
    (hsame : ∀ logger, pc.shared = some logger →
      (loggers' logger).formatter = (loggers logger).formatter ∧
      (loggers' logger).appenders = (loggers logger).appenders) : Progress loggers' ops pc := by
  cases pc with
  | loop d | readAppenderLevel d | lockAppender d | write d | flushFatal d | unlockAppender d =>
      obtain ⟨hformatter, happenders⟩ := hsame d.logger rfl
      simpa only [Progress, Delivery.rendering, hformatter, happenders] using h
  | format record logger => simpa only [Progress, (hsame logger rfl).2] using h
  | _ => exact h

theorem progress_enter {loggers : Loggers} {ops : List Op} {call : Call} (h : Untouched ops []) :
    Progress loggers ops call.enter := by
  cases call with
  | route task => cases task <;> exact h
  | _ => exact h

theorem progress_task {loggers : Loggers} {ops : List Op} {task : Task} {logger : LoggerId} (h : Untouched ops []) :
    Progress loggers ops (task.enter logger) := by
  cases task <;> exact h

theorem progress_leave {loggers : Loggers} {ops : List Op} {task : Task} (h : Untouched ops []) :
    Progress loggers ops task.leave := by
  cases task with
  | shouldLog => exact h
  | _ => exact .inl h

theorem progress_perform {loggers : Loggers} {ops : List Op} {task : Task} {logger : LoggerId}
    (h : Untouched ops []) (happenders : (loggers logger).appenders.isEmpty = false) :
    Progress loggers (ops ++ [.test task logger (loggers logger).appenders]) (task.perform logger) := by
  have htest := h.test task logger (loggers logger).appenders
  cases task with
  | shouldLog | visit => exact htest
  | submit record =>
      rw [Task.perform, Progress]
      cases hlist : (loggers logger).appenders with
      | nil =>
          rw [hlist] at happenders
          cases happenders
      | cons appender appenders =>
          rw [hlist] at htest
          exact htest

section

variable {T τ : Type} {render : Formatter → LogRecordView → τ → Bytes × τ} {s : Shared T} {l l' : Local τ} {op : Op}
  {ops : List Op}

theorem take_index {appenders : List AppenderId} {index : Nat} {appender : AppenderId}
    (h : appenders[index]? = some appender) :
    appenders.take (index + 1) = appenders.take index ++ [appender] := by
  rw [List.take_add_one, h]
  rfl

/-- A step of the program, on a shared state that it leaves as it is. -/
theorem Progress.next (h : Progress s.loggers ops l.pc) (hnext : next render s l = some (op, l')) :
    Progress s.loggers (ops ++ [op]) l'.pc := by
  obtain ⟨pc, cache, calls⟩ := l
  cases pc <;> simp only [Threads.next] at hnext
  case readLevel =>
      split at hnext <;> cases hnext
      · exact .inl (h.quiet ⟨rfl, rfl, rfl, rfl⟩)
      · exact h.quiet ⟨rfl, rfl, rfl, rfl⟩
  case testAppenders task logger =>
      split at hnext <;> cases hnext
      · rename_i hempty
        have htest := h.test task logger (s.loggers logger).appenders
        rw [List.isEmpty_iff.mp hempty] at htest ⊢
        cases task <;> exact htest
      · rename_i hsome
        exact progress_perform h (Bool.not_eq_true _ ▸ hsome)
  case askLevel =>
      split at hnext <;> cases hnext <;> exact h.quiet ⟨rfl, rfl, rfl, rfl⟩
  case toRoot =>
      split at hnext <;> cases hnext
      · exact progress_task (h.quiet ⟨rfl, rfl, rfl, rfl⟩)
      · exact progress_leave (h.quiet ⟨rfl, rfl, rfl, rfl⟩)
  case format =>
      cases hnext
      refine Untouched.format ?_
      exact h
  case loop d =>
      split at hnext <;> cases hnext
      · rename_i appender happender
        exact ⟨happender, h.quiet ⟨rfl, rfl, rfl, rfl⟩⟩
      · rename_i hend
        have hall := List.take_of_length_le (List.getElem?_eq_none_iff.mp hend)
        refine .inr ⟨d.rendering s.loggers, ?_⟩
        rw [Progress, hall] at h
        exact h.quiet ⟨rfl, rfl, rfl, rfl⟩
  case readAppenderLevel d appender =>
      obtain ⟨happender, h⟩ := h
      split at hnext <;> cases hnext
      · have hcheck := h.check appender false
        rwa [← take_index happender] at hcheck
      · have hcheck := h.check appender true
        rw [← take_index happender] at hcheck
        exact ⟨happender, hcheck⟩
  case lockAppender =>
      cases hnext
      exact ⟨h.1, h.2.quiet ⟨rfl, rfl, rfl, rfl⟩⟩
  case write =>
      split at hnext
      · cases hnext
        exact ⟨h.1, h.2.quiet ⟨rfl, rfl, rfl, rfl⟩⟩
      · split at hnext <;> cases hnext <;> exact ⟨h.1, h.2.quiet ⟨rfl, rfl, rfl, rfl⟩⟩
  case flushFatal =>
      cases hnext
      exact ⟨h.1, h.2.quiet ⟨rfl, rfl, rfl, rfl⟩⟩
  case unlockAppender =>
      cases hnext
      exact h.2.appended
  case visitLoop =>
      split at hnext <;> cases hnext
      · exact h.quiet ⟨rfl, rfl, rfl, rfl⟩
      · exact .inl (h.quiet ⟨rfl, rfl, rfl, rfl⟩)
  case visitUnlock =>
      split at hnext <;> cases hnext
      · exact h.quiet ⟨rfl, rfl, rfl, rfl⟩
      · exact .inl (h.quiet ⟨rfl, rfl, rfl, rfl⟩)
  case unlockShared =>
      cases hnext
      exact h.quiet ⟨rfl, rfl, rfl, rfl⟩
  case ret =>
      cases hnext
      exact (h.quiet ⟨rfl, rfl, rfl, rfl⟩).started
  case answer | getFormatter | unlock | setLevel | setAppenderLevel =>
      cases hnext
      exact .inl (h.quiet ⟨rfl, rfl, rfl, rfl⟩)
  case idle => cases hnext
  all_goals
    cases hnext
    exact h.quiet ⟨rfl, rfl, rfl, rfl⟩

end

end Threads

end Pans
