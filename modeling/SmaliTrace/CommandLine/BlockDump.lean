import SmaliTrace.CommandLine.Flags
import SmaliTrace.CommandLine.Outcome
import SmaliTrace.Dot
import SmaliTrace.Index.Basic
import SmaliTrace.Program.Load

/-!
The command that prints the block graphs of methods.
-/
namespace SmaliTrace.CommandLine.BlockDump
open SmaliTrace.Store

/-- The flags of the command. -/
def flags : Flags :=
  [("debug", .switch), ("help", .switch), ("class", .text), ("method", .text), ("params", .text)]

/-- The methods that the flags name: all of the class if no method is named. -/
def selected (p : Program) (owner method params : String) : List MethodId :=
  if method ≠ "" then p.findMethods owner method params
  else p.methods.filter fun id => (p.method? id).any fun m => m.owner = owner

/-- The drawing of a method, or a warning if it has no blocks. -/
def draw (x : Index) (id : MethodId) : List LogEntry × String :=
  let name := x.program.methodText id
  match x.program.method? id, x.graph? id with
  | some m, some g =>
    if g.blocks.isEmpty then ([⟨.warning, name ++ ": no block graph: <nil>"⟩], "")
    else ([], "// " ++ name ++ "\n" ++ Dot.blockGraph m g ++ "\n")
  | _, _ =>
    let reason :=
      match x.fault? id with
      | some fault => fault.message
      | none => "<nil>"
    ([⟨.warning, name ++ ": no block graph: " ++ reason⟩], "")

/-- Draws the methods that the flags name, of the class files below the path. -/
def perform (files : Workspace) (s : Settings) (path : String) : Outcome :=
  match (Program.loadDirectory files FileContent.toText false path).outcome with
  | (.error e, log) => { files := files, exit := 1, log := log ++ [⟨.fatal, e.message⟩] }
  | (.ok p, log) =>
    let prepared := Index.ofProgram p []
    let log := log ++ prepared.log
    let owner := s.text "class"
    let method := s.text "method"
    let params := s.text "params"
    match selected p owner method params with
    | [] =>
      let message := "no method " ++ owner ++ "->" ++ method ++ "(" ++ params ++ ")"
      { files := files, exit := 1, log := log ++ [⟨.fatal, message⟩] }
    | ids =>
      let drawn := ids.map (draw prepared.index)
      { files := files, log := log ++ drawn.flatMap Prod.fst
        output := String.join (drawn.map Prod.snd) }

/-- Runs the command. Without a class and one path it only tells how it is used; a flag `h` asks for
that, and other unknown flags are refused. -/
def run (files : Workspace) (arguments : List String) : Outcome :=
  let parsed := parseFlags flags arguments
  let s := parsed.settings
  match parsed.outcome with
  | .error (.undefined "h") => { files := files, help := true }
  | .error _ => { files := files, exit := 2, help := true }
  | .ok paths =>
    match paths with
    | [path] =>
      if s.switch "help" || s.text "class" = "" then { files := files, help := true }
      else perform files s path
    | _ => { files := files, help := true }

end SmaliTrace.CommandLine.BlockDump
