import Pans.Formatter.Format
import Pans.Logger.Graph

/-!
# Assertions that log

A failed assertion in a format item logs a FATAL record through the root logger, whose formatter may be the one
at work. The calls nest: `submit`, `Formatter::format`, the item, `PANS_ASSERT2`, `~LogLine`, `submit`.
-/

namespace Pans

/-- What the loggers work on: the appenders, and the number of assertions that have failed. -/
structure LogState where
  appenders : AppenderId → Appender.Impl
  failedAssertions : Nat

def LogState.append (appender : AppenderId) (level : LogLevel) (formattedRecord : Bytes)
    (st : ThreadState LogState) : ThreadState LogState :=
  let impl := (st.rest.appenders appender).append level formattedRecord
  { st with rest := { st.rest with appenders := Function.update st.rest.appenders appender impl } }

def AssertFailure.message (failure : AssertFailure) (backtrace : Bytes) : Bytes :=
  ascii "Assert " ++ failure.condition ++ ascii " failed. [" ++ failure.info ++ ascii "].\nStacktrace:\n" ++ backtrace

section

variable {Tm : Type} (libc : Libc Tm) (loggers : Loggers) (root : LoggerId)
  (surroundings : Nat → LogContext × Bytes)

/-- `PANS_ASSERT2`, up to the `assert` that a release build drops. The n-th failed assertion finds the clock, the
thread and the stack as in `surroundings n`. -/
def assertFailed (fuel : Nat) (submit : LoggerId → LogRecordView → ThreadState LogState → Option (ThreadState LogState))
    (failure : AssertFailure) (st : ThreadState LogState) : Option (ThreadState LogState) :=
  match loggers.shouldLog fuel root .fatal with
  | none => none
  | some false => some st
  | some true =>
      let (context, backtrace) := surroundings st.rest.failedAssertions
      let record := context.getRecord .fatal (loggers root).name (failure.message backtrace)
      submit root record { st with rest.failedAssertions := st.rest.failedAssertions + 1 }

/-- `submit` with everything it calls. The fuel bounds the depth of the calls. -/
def submitAsserting : (fuel : Nat) → LoggerId → LogRecordView → ThreadState LogState → Option (ThreadState LogState)
  | 0, _, _, _ => none
  | fuel + 1, logger, record, st =>
      (loggers logger).submit (submitAsserting fuel)
        (fun F record st =>
          F.format libc (assertFailed loggers root surroundings (fuel + 1) (submitAsserting fuel)) record st [])
        LogState.append record st

end

end Pans
