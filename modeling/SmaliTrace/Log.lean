/-!
Log messages with their levels, and computations that log before they succeed or fail.
-/
namespace SmaliTrace

/-- The level of a log message. -/
inductive Level where
  | debug
  | info
  | warning
  | fatal
deriving DecidableEq, Repr

/-- The name of a level. -/
def Level.name : Level → String
  | .debug => "debug"
  | .info => "info"
  | .warning => "warning"
  | .fatal => "fatal"

/-- A log message. -/
structure LogEntry where
  level : Level
  message : String
deriving DecidableEq, Repr

/-- A computation that logs and may fail; what was logged before a failure is kept. -/
abbrev Logged (ε : Type) := ExceptT ε (StateM (List LogEntry))

namespace Logged

/-- Logs the entries. -/
def sayAll {ε : Type} (entries : List LogEntry) : Logged ε Unit := modify (· ++ entries)

/-- Logs a message of the info level. -/
def info {ε : Type} (message : String) : Logged ε Unit := sayAll [⟨.info, message⟩]

/-- The outcome of a computation, with its log. -/
def outcome {ε α : Type} (x : Logged ε α) : Except ε α × List LogEntry := x.run []

end Logged

end SmaliTrace
