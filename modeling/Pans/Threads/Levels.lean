import Pans.Threads.Trace

/-!
# What stays so during a call

From the state in which a call begins, a level may be changed and an appender may be removed by any thread, or not.
-/

namespace Pans

namespace Threads

variable {T : Type}

/-- From the state on, the level of the logger has the property. -/
structure LevelSince (P : LogLevel → Prop) (logger : LoggerId) (s : Shared T) (later : List (T × Event)) : Prop where
  now : P (s.loggers logger).level
  later : ∀ e ∈ later, ∀ level, e.2.op = .setLevel logger level → P level

structure AppenderLevelSince (P : LogLevel → Prop) (appender : AppenderId) (s : Shared T)
    (later : List (T × Event)) : Prop where
  now : P (s.appenders appender).level
  later : ∀ e ∈ later, ∀ level, e.2.op = .setAppenderLevel appender level → P level

structure RegisteredSince (logger : LoggerId) (appender : AppenderId) (s : Shared T)
    (later : List (T × Event)) : Prop where
  now : appender ∈ (s.loggers logger).appenders
  later : ∀ e ∈ later, ∀ c, e.2.op = .apply c → ¬c.Removes logger appender

def Below (record : LogRecordView) (level : LogLevel) : Prop := record.level.toU8 < level.toU8

instance (record : LogRecordView) (level : LogLevel) : Decidable (Below record level) :=
  inferInstanceAs (Decidable (_ < _))

end Threads

end Pans
