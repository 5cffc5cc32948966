import SmaliTrace.Slice.Forward

/-!
Running searches: each seed of a pattern has its own search, which drains its worklist until nothing
is left, something is wrong, or a limit is reached.
-/
namespace SmaliTrace.Slice
open SmaliTrace.ClassFile (LineLabel)

/-- Takes the next content search, fields before arrays before results. -/
def nextContent? (w : Worklist) : Option (Content × ContentSearch × Worklist) :=
  [Content.field, .array, .result].findSome? fun kind =>
    (w.popContent? kind).map fun (c, w) => (kind, c, w)

/-- The counter of a kind of content search. -/
def Content.counter : Content → Counter
  | .field => .fieldSearches
  | .array => .arraySearches
  | .result => .returnSearches

/-- Performs a register search. -/
def searchRegister (x : Context) (r : RegisterSearch) : SearchM Unit :=
  if x.forward then forwardRegister x r else backwardRegister x r

/-- Performs a content search. -/
def searchContent (x : Context) (kind : Content) (c : ContentSearch) : SearchM Unit :=
  match kind, x.forward with
  | .field, true | .array, true => forwardField x c
  | .field, false => backwardField x c
  | .array, false => backwardArrayField x c
  | .result, true => forwardCallers x c
  | .result, false => backwardResult x c

/-- Performs one waiting item. Registers go first; content is looked at once no register waits. -/
def performNext (x : Context) : SearchM Unit := do
  let s ← get
  match s.work.popRegister? with
  | some (r, work) =>
    set { s with work := work }
    searchRegister x r
    onWork fun w => (w.complete, ())
    let s ← get
    if x.options.maxCompleted < (s.work.completed : Int) then
      throw (.searchLimit x.options.maxCompleted)
  | none =>
    match nextContent? s.work with
    | none => pure ()
    | some (kind, c, work) =>
      set { s with work := work, tally := s.tally.bump kind.counter }
      searchContent x kind c

/-- Drains the worklist, with `budget` items at most. -/
def drain (x : Context) : (budget : Nat) → SearchM Unit
  | 0 => do
    if !(← get).work.isFinished then throw (.iterationLimit x.options.maxIterations)
  | budget + 1 => do
    if !(← get).work.isFinished then
      performNext x
      drain x budget

/-- How a search ended. -/
inductive Outcome where
  | completed
  | aborted (fault : Fault)
deriving DecidableEq, Repr

/-- The status of an outcome. -/
def Outcome.status : Outcome → String
  | .completed => "completed"
  | .aborted _ => "aborted"

/-- Why a search gave up, or empty. -/
def Outcome.reason : Outcome → String
  | .completed => ""
  | .aborted fault => fault.message

/-- What one search found: its slice graph, its constants in order, and how it ended. -/
structure SearchResult where
  id : Nat
  graph : SliceGraph
  constants : List Constant
  outcome : Outcome

/-- What a pattern gives: one result for each seed, with the counters and the log. -/
structure Criterion where
  pattern : String
  searches : List SearchResult
  tally : Tally
  log : List LogEntry

namespace Criterion

/-- The searches that gave up. -/
def abortedSearches (c : Criterion) : List SearchResult :=
  c.searches.filter fun s => s.outcome ≠ .completed

/-- The faults that stopped a search, limits apart. -/
def faults (c : Criterion) : List Fault :=
  c.searches.filterMap fun s =>
    match s.outcome with
    | .aborted fault => if fault.isLimit then none else some fault
    | .completed => none

/-- The constants of all searches, in order. -/
def allConstants (c : Criterion) (label : LineId → LineLabel) : List Constant :=
  sortConstants label (c.searches.flatMap SearchResult.constants)

end Criterion

/-- A finished search with its counters and log. -/
structure Finished where
  result : SearchResult
  tally : Tally
  log : List LogEntry

/-- Runs one search from its seed. -/
def runSearch (x : Context) (pattern : String) (seed : SearchM Unit) : Finished :=
  let action : SearchM Unit := do
    seed
    drain x x.options.maxIterations.toNat
  let start : State := { work := { maxFuzzy := x.options.maxFuzzy } }
  let (ending, s) := (action.run start : Except Fault Unit × State)
  let tally := (s.tally.plus s.work.tally).bump .seeds
  let result (outcome : Outcome) : SearchResult :=
    { id := x.search, graph := s.work.graph,
      constants := sortConstants x.label s.constants.toList, outcome := outcome }
  let told (verb : String) (fault : Fault) : List LogEntry :=
    [⟨.warning, "Search " ++ toString x.search ++ " of " ++ pattern ++ " " ++ verb ++ ": " ++
      fault.message⟩]
  match ending with
  | .ok () => ⟨result .completed, tally, []⟩
  | .error fault =>
    let tally := tally.bump .abortedSeeds
    if fault.isLimit then ⟨result (.aborted fault), tally, told "aborted" fault⟩
    else ⟨result (.aborted fault), tally.bump .loggedErrors, told "failed" fault⟩

/-- Runs one search for each seed. -/
def runAll {α : Type} (pattern direction : String) (seeds : List α) (run : Nat → α → Finished) :
    Criterion :=
  let finished := seeds.zipIdx.map fun (seed, i) => run i seed
  { pattern := pattern
    searches := finished.map Finished.result
    tally := finished.foldl (fun t f => t.plus f.tally) {}
    log := ⟨.info, direction ++ " slicing " ++ pattern ++ " from " ++ toString seeds.length ++
      " seeds"⟩ :: finished.flatMap Finished.log }

/-- Finds where the values that a pattern asks about come from. -/
def backward (x : Index) (options : Options) (p : BackwardPattern) : Criterion :=
  runAll p.text "Backward" (backwardSeeds x p) fun i line =>
    let context : Context :=
      { index := x, options := options, search := i, forward := false, pattern := some p }
    runSearch context p.text (seedBackward context p line)

/-- Finds where the values that a pattern asks about go. -/
def forward (x : Index) (options : Options) (p : ForwardPattern) : Criterion :=
  runAll p.text "Forward" (forwardSeeds x p) fun i seed =>
    let context : Context :=
      { index := x, options := options, search := i, forward := true, pattern := none }
    runSearch context p.text (seedForward seed)

end SmaliTrace.Slice
