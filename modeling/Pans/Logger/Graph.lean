import Pans.Logger.Impl

/-!
# Graphs of loggers

The members of `Logger::Impl` follow the `root_` links. Nothing in the types keeps a chain of links from being
a cycle, so the calls carry fuel; a chain that ends is a `RootChain`.
-/

namespace Pans

abbrev Loggers := LoggerId → Logger.Impl

namespace Loggers

variable {S : Type} (loggers : Loggers)

def shouldLog : (fuel : Nat) → LoggerId → LogLevel → Option Bool
  | 0, _, _ => none
  | fuel + 1, logger, level => (loggers logger).shouldLog (shouldLog fuel) level

/-- The calls of the formatter and of the appenders come with the logger that makes them. -/
def submit (format : LoggerId → Formatter → LogRecordView → S → Option (S × Bytes))
    (append : LoggerId → AppenderId → LogLevel → Bytes → S → S) :
    (fuel : Nat) → LoggerId → LogRecordView → S → Option S
  | 0, _, _, _ => none
  | fuel + 1, logger, record, s =>
      (loggers logger).submit (submit format append fuel) (format logger) (append logger) record s

def flush (flushAppender : LoggerId → AppenderId → S → S) : (fuel : Nat) → LoggerId → S → Option S
  | 0, _, _ => none
  | fuel + 1, logger, s => (loggers logger).flush (flush flushAppender fuel) (flushAppender logger) s

def sync (syncAppender : LoggerId → AppenderId → S → S) : (fuel : Nat) → LoggerId → S → Option S
  | 0, _, _ => none
  | fuel + 1, logger, s => (loggers logger).sync (sync syncAppender fuel) (syncAppender logger) s

/-- `PANS_LOG_LEVEL` and `PANS_LOG_FMT_LEVEL` on a finished record: no line is built unless `shouldLog` says so. -/
def logLevel (format : LoggerId → Formatter → LogRecordView → S → Option (S × Bytes))
    (append : LoggerId → AppenderId → LogLevel → Bytes → S → S) (fuel : Nat) (logger : LoggerId)
    (record : LogRecordView) (s : S) : Option S :=
  match loggers.shouldLog fuel logger record.level with
  | none => none
  | some false => some s
  | some true => loggers.submit format append fuel logger record s

/-! ## Routing -/

/-- The loggers that the `root_` links lead to from a pointer on. -/
inductive RootChain : Option LoggerId → List LoggerId → Prop where
  | null : RootChain none []
  | link {logger chain} : RootChain (loggers logger).root chain → RootChain (some logger) (logger :: chain)

def target (chain : List LoggerId) : Option LoggerId :=
  chain.find? fun logger => !(loggers logger).appenders.isEmpty

/-- The loggers that a record passes on its way to the target, which is the last of them. -/
def way : List LoggerId → List LoggerId
  | [] => []
  | logger :: chain => if (loggers logger).appenders.isEmpty then logger :: way chain else [logger]

def Admits (chain : List LoggerId) (level : LogLevel) : Prop :=
  ∀ logger ∈ loggers.way chain, ¬level.toU8 < (loggers logger).level.toU8

instance (chain : List LoggerId) (level : LogLevel) : Decidable (loggers.Admits chain level) :=
  inferInstanceAs (Decidable (∀ logger ∈ loggers.way chain, _))

end Loggers

/-! ## Tracing -/

inductive RoutingCall where
  | format (logger : LoggerId)
  | append (logger : LoggerId) (appender : AppenderId) (formattedRecord : Bytes)
  deriving DecidableEq, Repr

namespace RoutingCall

def appender : RoutingCall → Option (LoggerId × AppenderId)
  | .format _ => none
  | .append logger appender _ => some (logger, appender)

def traceFormat (render : Formatter → LogRecordView → Bytes) (logger : LoggerId) (formatter : Formatter)
    (record : LogRecordView) (calls : List RoutingCall) : Option (List RoutingCall × Bytes) :=
  some (calls ++ [.format logger], render formatter record)

def traceAppend (logger : LoggerId) (appender : AppenderId) (_ : LogLevel) (formattedRecord : Bytes)
    (calls : List RoutingCall) : List RoutingCall :=
  calls ++ [.append logger appender formattedRecord]

def traceVisit (logger : LoggerId) (appender : AppenderId) (visits : List (LoggerId × AppenderId)) :
    List (LoggerId × AppenderId) :=
  visits ++ [(logger, appender)]

end RoutingCall

end Pans
