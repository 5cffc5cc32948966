import SmaliTrace.Config.Basic
import SmaliTrace.Program.Load
import SmaliTrace.Slice.Run

/-!
An analysis: loads a program, evaluates every rule of a configuration, and collects the literal values
that a backward rule reports.
-/
namespace SmaliTrace.Analysis
open SmaliTrace.Slice (Constant Criterion SearchResult)

/-- A literal that an expression of its rule matches, where it is written, and the lines that lead
from there to the seed. -/
structure Finding where
  rule : String
  constant : Constant
  file : String
  line : Int
  trace : List LineId
deriving Repr, Inhabited

/-- The finding as messages show it. -/
def Finding.text (f : Finding) : String :=
  f.rule ++ ": " ++ f.constant.kind.name ++ " " ++ f.constant.value.quote

/-- What a rule gives. -/
structure RuleResult where
  name : String
  backward : Bool
  criterion : Criterion
  findings : List Finding

/-- What an analysis gives: one result for each rule, backward rules first. -/
structure Result where
  index : Index
  rules : List RuleResult
  tally : Tally

/-- The findings of all rules. -/
def Result.findings (r : Result) : List Finding := r.rules.flatMap RuleResult.findings

/-- The program of an analysis. -/
def Result.program (r : Result) : Program := r.index.program

/-- Why an analysis stops. -/
inductive Failure where
  | invalid (reason : Config.Invalid)
  | noInput (path : String) (error : FileError)
  | noClassFiles (paths : List String)
  | load (error : Program.LoadError)
deriving DecidableEq, Repr

/-- Paths as messages show them. -/
def pathList (paths : List String) : String := "[" ++ Text.join " " paths ++ "]"

/-- The message of a failure. -/
def Failure.message : Failure → String
  | .invalid reason => reason.message
  | .noInput path error => "input " ++ path ++ ": " ++ error.message
  | .noClassFiles paths => "no smali files in " ++ pathList paths
  | .load error => error.message

/-- The class files of one input: itself, or those below it if it is a directory. -/
def inputFiles {α : Type} (t : FileTree α) (path : String) : Except Failure (List String) :=
  match t.find "stat" path with
  | .error e => .error (.noInput path e)
  | .ok (_, .file _) => .ok [path]
  | .ok (_, .directory) =>
    match Program.classFilesBelow t path with
    | .ok paths => .ok paths
    | .error e => .error (.load (.walking path e))

/-- The class files of all inputs, in order. -/
def classFiles {α : Type} (t : FileTree α) (paths : List String) : Except Failure (List String) := do
  let files ← paths.mapM (inputFiles t)
  match files.flatten with
  | [] => .error (.noClassFiles paths)
  | files => .ok (Program.sortPaths files)

/-- The lines on a shortest path from the node of a constant to the seed. -/
def trace (s : SearchResult) (c : Constant) : List LineId :=
  let path := (s.graph.shortestPath? c.node.toNat 0).getD []
  path.filterMap fun id => s.graph.nodes[id]?.map fun n => n.line

/-- The findings come by file, then by line. -/
def findingLe (a b : Finding) : Bool :=
  if a.file ≠ b.file then decide (a.file ≤ b.file) else decide (a.line ≤ b.line)

/-- The literals of a criterion that the rule reports. -/
def findings (p : Program) (rule : Config.CheckedRule) (c : Criterion) : List Finding :=
  let found := c.searches.flatMap fun s =>
    (s.constants.filter fun k => k.kind.isLiteral && rule.isInsecure k.value).map fun k =>
      { rule := rule.rule.name, constant := k, file := p.path k.line,
        line := (p.label k.line).number, trace := trace s k }
  found.mergeSort findingLe

/-- The nodes of every slice, for debugging, and the searches that gave up. -/
def remarks (p : Program) (r : RuleResult) : List LogEntry :=
  let nodes := r.criterion.searches.flatMap fun s =>
    s.graph.preorder.filterMap fun id => s.graph.nodes[id]?.map fun n =>
      ⟨.debug, "  search " ++ toString s.id ++ ": #" ++ toString id ++ " " ++ (p.label n.line).show⟩
  let aborted := r.criterion.abortedSearches.map fun s =>
    ⟨.warning, r.name ++ ": search " ++ toString s.id ++ " aborted: " ++ s.outcome.reason⟩
  let faults := r.criterion.faults.map fun f => ⟨.warning, r.name ++ ": " ++ f.message⟩
  nodes ++ aborted ++ faults

/-- Logs a rule and what came of it. -/
def report (p : Program) (r : RuleResult) : Logged Failure Unit := do
  Logged.info ("Rule " ++ r.name)
  Logged.sayAll r.criterion.log
  Logged.sayAll (remarks p r)

/-- Evaluates the rules on an index. -/
def evaluate (x : Index) (c : Config.Checked) : List RuleResult :=
  let backward := c.backward.map fun r =>
    let criterion := Slice.backward x c.config.options r.rule.pattern
    { name := r.rule.name, backward := true, criterion := criterion,
      findings := findings x.program r criterion }
  let forward := c.config.forward.map fun r =>
    { name := r.name, backward := false,
      criterion := Slice.forward x c.config.options r.pattern, findings := [] }
  backward ++ forward

/-- Runs an analysis of the class files at or below the paths. With `listing`, the counters are logged
at the end. -/
def run {α : Type} (t : FileTree α) (text : α → String) (paths : List String) (config : Config)
    (canceled listing : Bool) : Logged Failure Result := do
  let checked ←
    match config.check with
    | .ok c => pure c
    | .error reason => throw (.invalid reason)
  let files ← classFiles t paths
  Logged.info ("Loading " ++ toString files.length ++ " smali files from " ++ pathList paths)
  let (loaded, log) := (Program.loadFiles t text canceled files).outcome
  Logged.sayAll log
  let program ←
    match loaded with
    | .ok p => pure p
    | .error e => throw (.load e)
  let prepared := Index.ofProgram program config.excluded
  Logged.sayAll prepared.log
  let rules := evaluate prepared.index checked
  rules.forM (report program)
  let tally := rules.foldl (fun t r => t.plus r.criterion.tally) prepared.tally
  let result : Result := ⟨prepared.index, rules, tally⟩
  Logged.info ("Found " ++ toString result.findings.length ++ " finding(s)")
  if listing then Logged.sayAll tally.listing
  pure result

end SmaliTrace.Analysis
