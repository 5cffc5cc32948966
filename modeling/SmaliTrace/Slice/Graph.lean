import SmaliTrace.Graph.Traversal
import SmaliTrace.Program.Basic

/-!
Slice graphs. A node is a line of the slice; its inbound edges name the nodes that were tracked when
the line was reached, filed under pairs of registers. A node that ends a path is terminal, and stops
being so when a path leads through its line.
-/
namespace SmaliTrace.Slice
open SmaliTrace.Smali (Register)

/-- The name of a node: its position in the graph. Other integers name no node. -/
abbrev NodeId := Int

/-- The registers of an edge: the one that the node hands on, and the one tracked at the node that the
edge leads to. -/
structure EdgeKey where
  source : Register
  target : Register
deriving DecidableEq, Repr, Inhabited

/-- The source of the edges of terminal nodes. -/
def constSource : Register := "const"

/-- Adds an id to an ascending list without repetition. -/
def insertId (id : NodeId) : List NodeId → List NodeId
  | [] => [id]
  | a :: rest => if id < a then id :: a :: rest else if id = a then a :: rest else a :: insertId id rest

/-- The union of two ascending lists. -/
def unionIds (ids more : List NodeId) : List NodeId := more.foldl (fun ids id => insertId id ids) ids

/-- Inbound edges: the register pairs in the order they appeared, each with the ascending ids of its
predecessors. -/
abbrev Inbound := List (EdgeKey × List NodeId)

/-- Adds predecessors under a register pair. -/
def Inbound.add (edges : Inbound) (key : EdgeKey) (ids : List NodeId) : Inbound :=
  match edges with
  | [] => [(key, ids)]
  | (k, preds) :: rest =>
    if k = key then (k, unionIds preds ids) :: rest else (k, preds) :: Inbound.add rest key ids

/-- The predecessors under a register pair. -/
def Inbound.ids (edges : Inbound) (key : EdgeKey) : List NodeId :=
  match edges.find? fun (k, _) => k = key with
  | some (_, preds) => preds
  | none => []

/-- A node of a slice graph. A terminal node keeps the register that its constant defines. -/
structure Node where
  line : LineId
  terminal : Option Register := none
  inbound : Inbound := []
deriving DecidableEq, Repr, Inhabited

namespace Node

/-- All predecessors, ascending. -/
def preds (n : Node) : List NodeId := n.inbound.foldl (fun ids (_, preds) => unionIds ids preds) []

/-- The node ends its paths. -/
def isTerminal (n : Node) : Bool := n.terminal.isSome

/-- Adds an edge from the node with the given id; a node is never its own predecessor. -/
def addInbound (n : Node) (self : NodeId) (key : EdgeKey) (pred : Option NodeId) : Node :=
  match pred with
  | none => n
  | some p => if p = self then n else { n with inbound := n.inbound.add key [p] }

/-- The order of register pairs: by source, then by target. -/
def keyLe (a b : EdgeKey) : Bool :=
  if a.source = b.source then decide (a.target ≤ b.target) else decide (a.source ≤ b.source)

/-- The edges under the terminal source, filed anew under the register of the constant and merged
where they meet. -/
def movedEdges (register : Register) (edges : Inbound) : Inbound :=
  let moved := edges.foldl (fun (table : Inbound) (key, ids) =>
    if key.source = constSource then table.add ⟨register, key.target⟩ (unionIds [] ids)
    else table) []
  moved.mergeSort fun a b => keyLe a.1 b.1

/-- Turns a terminal node into one that paths lead through. -/
def upgrade (n : Node) : Node :=
  match n.terminal with
  | none => n
  | some register =>
    let kept := n.inbound.filter fun (key, _) => key.source ≠ constSource
    { n with
      terminal := none
      inbound := (movedEdges register n.inbound).foldl (fun edges (key, ids) => edges.add key ids) kept }

end Node

/-- A slice graph: its nodes, by id. -/
structure SliceGraph where
  nodes : Array Node := #[]
deriving DecidableEq, Repr, Inhabited

namespace SliceGraph

/-- The id of the node of a line. -/
def lookup? (g : SliceGraph) (line : LineId) : Option Nat := g.nodes.findIdx? fun n => n.line = line

/-- The node with the id. -/
def node? (g : SliceGraph) (id : NodeId) : Option Node := if id < 0 then none else g.nodes[id.toNat]?

/-- The first node. -/
def start? (g : SliceGraph) : Option Nat := if g.nodes.isEmpty then none else some 0

/-- Changes the node with the id. -/
def modify (g : SliceGraph) (id : Nat) (f : Node → Node) : SliceGraph := ⟨g.nodes.modify id f⟩

/-- Records that the value tracked at `pred` comes through the line, which stops being terminal. -/
def addNode (g : SliceGraph) (line : LineId) (pred : Option NodeId) (key : EdgeKey) :
    SliceGraph × Nat :=
  match g.lookup? line with
  | some id => (g.modify id fun n => n.upgrade.addInbound id key pred, id)
  | none =>
    let id := g.nodes.size
    (⟨g.nodes.push (({ line := line } : Node).addInbound id key pred)⟩, id)

/-- Records a constant that defines `register` as the origin of the value tracked at `pred` under
`target`. A line that paths lead through stays so. -/
def addConstant (g : SliceGraph) (line : LineId) (pred : Option NodeId)
    (register target : Register) : SliceGraph × Nat :=
  match g.lookup? line with
  | some id =>
    (g.modify id fun n =>
      n.addInbound id ⟨if n.isTerminal then constSource else register, target⟩ pred, id)
  | none =>
    let id := g.nodes.size
    let node : Node := { line := line, terminal := some register }
    (⟨g.nodes.push (node.addInbound id ⟨constSource, target⟩ pred)⟩, id)

/-- Adds an edge to an existing node. -/
def link (g : SliceGraph) (id : NodeId) (pred : Option NodeId) (key : EdgeKey) : SliceGraph :=
  if id < 0 then g
  else
    g.modify id.toNat fun n =>
      n.addInbound id (if n.isTerminal then { key with source := constSource } else key) pred

/-- The ids of all nodes. -/
def ids (g : SliceGraph) : List Nat := List.range g.nodes.size

/-- The methods of the lines, in the order they were reached; field declarations belong to none. -/
def methods (g : SliceGraph) : List (Option MethodId) :=
  (g.nodes.toList.map fun n => n.line.method?).eraseDups

/-- The nodes of a method. -/
def nodesOf (g : SliceGraph) (m : Option MethodId) : List Nat :=
  g.ids.filter fun id => (g.nodes[id]?.map fun n => n.line.method?) = some m

/-- The predecessors of a node that are nodes. -/
def next (g : SliceGraph) (id : Nat) : List Nat :=
  match g.nodes[id]? with
  | some n => (n.preds.filter fun p => 0 ≤ p && p < (g.nodes.size : Int)).map Int.toNat
  | none => []

/-- What a check of a graph finds. -/
inductive CheckError where
  | misfiled (node found : Nat)
  | missing (node : Nat) (pred : NodeId)
deriving DecidableEq, Repr

/-- The first node that is not the node of its line, or has a predecessor that is no node. -/
def check (g : SliceGraph) : Except CheckError Unit :=
  g.ids.forM fun id =>
    match g.nodes[id]? with
    | none => .ok ()
    | some n =>
      match g.lookup? n.line with
      | some found =>
        if found ≠ id then .error (.misfiled id found)
        else
          match n.preds.find? fun p => p < 0 || (g.nodes.size : Int) ≤ p with
          | some p => .error (.missing id p)
          | none => .ok ()
      | none => .ok ()

/-- The message of a failed check; `show` gives the text of a line. -/
def CheckError.message (g : SliceGraph) (showLine : LineId → String) : CheckError → String
  | .misfiled node found =>
    "line " ++ ((g.nodes[node]?.map fun n => showLine n.line).getD "") ++ " maps to " ++
      toString found ++ ", not " ++ toString node
  | .missing node pred =>
    "node " ++ toString node ++ " refers to missing node " ++ toString pred

/-- The nodes that are no predecessor. -/
def leaves (g : SliceGraph) : List Nat := Graph.leaves g.next g.ids

/-- A shortest path along predecessors. -/
def shortestPath? (g : SliceGraph) (a target : Nat) : Option (List Nat) :=
  Graph.shortestPath? g.next g.ids a target

/-- All paths along predecessors without repetition. There are none from or to an id that names no node. -/
def allPaths (g : SliceGraph) (a target : NodeId) : List (List Nat) :=
  match g.node? a, g.node? target with
  | some _, some _ => Graph.allPaths g.next g.ids a.toNat target.toNat
  | _, _ => []

/-- The nodes reached from the leaves depth first, in the order they are entered. -/
def preorder (g : SliceGraph) : List Nat := Graph.preorder g.next g.ids g.leaves

/-- The nodes visited depth first up to the first one that stops the visit, and whether one did. -/
def visitUntil (g : SliceGraph) (stop : Nat → Bool) : List Nat × Bool :=
  match g.preorder.findIdx? stop with
  | some i => (g.preorder.take (i + 1), true)
  | none => (g.preorder, false)

end SliceGraph

end SmaliTrace.Slice
