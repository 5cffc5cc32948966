import SmaliTrace.Store.Basic

/-!
What running a command gives.
-/
namespace SmaliTrace.CommandLine

/-- The exit code of a command, what it logs and prints, whether it shows its help, and the files that
it leaves. -/
structure Outcome where
  files : Workspace
  exit : Nat := 0
  log : List LogEntry := []
  help : Bool := false
  output : String := ""

end SmaliTrace.CommandLine
