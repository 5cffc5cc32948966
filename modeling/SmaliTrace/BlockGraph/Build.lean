import SmaliTrace.BlockGraph.Flow
import SmaliTrace.Graph.Traversal

/-!
Building the block graph: leaders cut the body into runs, runs without executable lines join their
neighbours, and links between lines become edges between blocks.
-/
namespace SmaliTrace.BlockGraph
open SmaliTrace.ClassFile SmaliTrace.Smali

/-- A line that starts a run: the first, one after a goto, and every target of a link. -/
def isLeader (m : Method) (links : List Link) (line : Nat) : Bool :=
  line = 0 || lineKind? m (line - 1) = some .goto || links.any fun link => link.dst = line

/-- The runs between leaders. -/
def runs (m : Method) (links : List Link) : List (List Nat) :=
  (List.range m.lines.size).splitBy fun _ line => !isLeader m links line

/-- Joins every run without executable lines, with `pending` before it, to the run after it; gives
also the lines left at the end. -/
def joinForward (m : Method) (pending : List Nat) : List (List Nat) → List (List Nat) × List Nat
  | [] => ([], pending)
  | run :: rest =>
    if run.any (executable m) then
      let (joined, left) := joinForward m [] rest
      ((pending ++ run) :: joined, left)
    else joinForward m (pending ++ run) rest

/-- Appends lines to the last run. -/
def appendToLast (left : List Nat) : List (List Nat) → List (List Nat)
  | [] => []
  | [run] => [run ++ left]
  | run :: rest => run :: appendToLast left rest

/-- The lines of the blocks. -/
def partition (m : Method) (links : List Link) : List (List Nat) :=
  let (joined, left) := joinForward m [] (runs m links)
  appendToLast left joined

/-- The index of the part that holds the line. -/
def partOf (parts : List (List Nat)) (line : Nat) : Nat := parts.findIdx fun part => part.contains line

/-- The last executable line of a part. -/
def lastExecutable? (m : Method) (part : List Nat) : Option Nat :=
  part.reverse.find? (executable m)

/-- The edges that links make; a bridge inside one block makes none. -/
def linkEdges (parts : List (List Nat)) (links : List Link) : List (Nat × Nat) :=
  links.filterMap fun link =>
    let a := partOf parts link.src
    let b := partOf parts link.dst
    if link.bridge && a = b then none else some (a, b)

/-- The edges from a block to the next one, unless control never falls through its last line. -/
def fallEdges (m : Method) (parts : List (List Nat)) : List (Nat × Nat) :=
  (List.range (parts.length - 1)).filterMap fun i =>
    match (parts[i]?.bind (lastExecutable? m)).bind (lineKind? m) with
    | some kind => if kind.endsBlock then none else some (i, i + 1)
    | none => none

/-- All edges, each once, in the order they are found. -/
def edges (m : Method) (parts : List (List Nat)) (links : List Link) : List (Nat × Nat) :=
  (linkEdges parts links ++ fallEdges m parts).eraseDups

/-- The successors of a block. -/
def succsOf (edges : List (Nat × Nat)) (b : Nat) : List Nat :=
  edges.filterMap fun (src, dst) => if src = b then some dst else none

/-- The predecessors of a block. -/
def predsOf (edges : List (Nat × Nat)) (b : Nat) : List Nat :=
  edges.filterMap fun (src, dst) => if dst = b then some src else none

/-- The lines that a bridge leaves from; a return there is no dead end. -/
def bridged (links : List Link) : List Nat :=
  links.filterMap fun link => if link.bridge then some link.src else none

/-- A block returns more than once, or goes on after it returned. -/
def hasDeadCode (m : Method) (links : List Link) (part : List Nat) : Bool :=
  let returns := part.countP fun i => lineKind? m i = some .ret && !(bridged links).contains i
  1 < returns ||
    (returns = 1 && (lastExecutable? m part).bind (lineKind? m) ≠ some .ret)

/-- The block of a part. -/
def makeBlock (m : Method) (flow : Flow) (edges : List (Nat × Nat)) (order : List Nat)
    (part : List Nat) (b : Nat) : Block :=
  let has (kind : Kind) : Bool := part.any fun i => lineKind? m i = some kind
  { lines := part
    label := order.idxOf? b
    preds := predsOf edges b
    succs := succsOf edges b
    returns := has .ret
    throws := has .throw
    jumps := has .goto
    dead := hasDeadCode m flow.links part
    isTry := part.any fun i => executable m i && flow.tries.any fun t => t.covers i
    isHandler := part.any fun i => flow.tries.any fun t => t.handlers.contains i }

/-- The graph of a body with the given flow. -/
def ofFlow (m : Method) (flow : Flow) : Graph :=
  let parts := partition m flow.links
  let edges := edges m parts flow.links
  let order := Graph.preorder (succsOf edges) (List.range parts.length) [0]
  { blocks := (parts.zipIdx.map fun (part, b) => makeBlock m flow edges order part b).toArray
    tries := flow.tries
    unlinked := order.length < parts.length }

/-- Builds the block graph of a decoded body. -/
def build (m : Method) : Except FlowError Graph :=
  if (List.range m.lines.size).any (executable m) then (collectFlow m).map (ofFlow m) else .ok {}

/-- Why a method takes no part in the analysis. -/
inductive MethodFault where
  | body (fault : BodyFault)
  | flow (error : FlowError)
deriving DecidableEq, Repr

/-- The message of a method fault. -/
def MethodFault.message : MethodFault → String
  | .body fault => fault.message
  | .flow error => error.message

/-- Builds the block graph of a method, if its body was decoded. -/
def ofMethod (m : Method) : Except MethodFault Graph :=
  match m.fault with
  | some fault => .error (.body fault)
  | none =>
    match build m with
    | .ok g => .ok g
    | .error e => .error (.flow e)

end SmaliTrace.BlockGraph
