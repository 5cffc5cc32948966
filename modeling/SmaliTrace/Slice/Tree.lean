import Mathlib.Data.List.AList
import SmaliTrace.Slice.Graph

/-!
Slice trees: the form in which a slice is built. The nodes stand in an arena, and beside them are kept the node of each
line, the methods in the order they were reached, the nodes of each method and the first node; a node keeps its edges in
a table and their register pairs in a list. None of these is made from another, so every change brings each of them up to
date, and a table that lacks an entry which the code takes for granted ends the change without a result.
-/
namespace SmaliTrace.Slice
open SmaliTrace.Smali (Register)

/-- The id of no node. -/
def noNode : NodeId := -1

/-- The predecessors under each register pair. -/
abbrev EdgeTable := AList fun _ : EdgeKey => List NodeId

/-- A node of a slice tree. The register is that of its constant, and stays when the node is not terminal any more. -/
structure TreeNode where
  id : NodeId
  line : LineId
  terminal : Bool := false
  register : Register := ""
  inbound : EdgeTable := ∅
  keys : List EdgeKey := []

/-- The register pairs of a table: by source, then by target. -/
def EdgeTable.sortedKeys (table : EdgeTable) : List EdgeKey := table.keys.mergeSort Node.keyLe

/-- The state of the pass over the register pairs of a terminal node: those that are kept, the table without the others,
and the predecessors of the others under the register of the constant. -/
structure Sorting where
  kept : List EdgeKey := []
  inbound : EdgeTable
  moved : EdgeTable := ∅

/-- One register pair of the pass. -/
def Sorting.visit (register : Register) (s : Sorting) (key : EdgeKey) : Option Sorting :=
  if key.source ≠ constSource then some { s with kept := s.kept ++ [key] }
  else do
    let ids ← s.inbound.lookup key
    let new : EdgeKey := ⟨register, key.target⟩
    some { s with
      moved := s.moved.insert new (unionIds ((s.moved.lookup new).getD []) ids)
      inbound := s.inbound.erase key }

namespace TreeNode

/-- All predecessors, ascending. -/
def preds (n : TreeNode) : List NodeId := n.inbound.entries.foldl (fun all edge => unionIds all edge.2) []

/-- Files predecessors under a register pair; a new pair is listed last. -/
def file (n : TreeNode) (key : EdgeKey) (ids : List NodeId) : TreeNode :=
  match n.inbound.lookup key with
  | some known => { n with inbound := n.inbound.insert key (unionIds known ids) }
  | none => { n with inbound := n.inbound.insert key ids, keys := n.keys ++ [key] }

/-- Adds an edge; a node is never its own predecessor. -/
def addInbound (n : TreeNode) (key : EdgeKey) (pred : NodeId) : TreeNode :=
  if pred = noNode ∨ pred = n.id then n else n.file key [pred]

/-- Turns a terminal node into one that paths lead through. -/
def upgrade (n : TreeNode) : Option TreeNode := do
  let s ← n.keys.foldlM (Sorting.visit n.register) { inbound := n.inbound }
  let passed := { n with terminal := false, inbound := s.inbound, keys := s.kept }
  s.moved.sortedKeys.foldlM (fun n key => do return n.file key (← s.moved.lookup key)) passed

end TreeNode

/-- A slice tree: the arena and the tables beside it. -/
structure SliceTree where
  nodes : Array TreeNode := #[]
  byLine : AList fun _ : LineId => NodeId := ∅
  methods : List (Option MethodId) := []
  byMethod : AList fun _ : Option MethodId => List NodeId := ∅
  start : NodeId := noNode

namespace SliceTree

/-- The node at a place of the arena. -/
def node? (t : SliceTree) (id : NodeId) : Option TreeNode := if id < 0 then none else t.nodes[id.toNat]?

/-- The node of a line. -/
def lookup? (t : SliceTree) (line : LineId) : Option NodeId := t.byLine.lookup line

/-- The nodes of a method. -/
def nodesOf (t : SliceTree) (m : Option MethodId) : List NodeId := (t.byMethod.lookup m).getD []

/-- Adds a node for the line, which stands last in the arena. -/
def insert (t : SliceTree) (line : LineId) : SliceTree :=
  let id : NodeId := t.nodes.size
  let m := line.method?
  { nodes := t.nodes.push { id := id, line := line }
    byLine := t.byLine.insert line id
    methods := if (t.byMethod.lookup m).isSome then t.methods else t.methods ++ [m]
    byMethod := t.byMethod.insert m (t.nodesOf m ++ [id])
    start := if t.start = noNode then id else t.start }

/-- Changes the node at a place of the arena, and gives the id that the node has. -/
def change (t : SliceTree) (place : NodeId) (f : TreeNode → Option TreeNode) : Option (SliceTree × NodeId) := do
  let n ← f (← t.node? place)
  return ({ t with nodes := t.nodes.setIfInBounds place.toNat n }, n.id)

/-- Records that the value tracked at `pred` comes through the line, which stops being terminal. -/
def addNode (t : SliceTree) (line : LineId) (pred : NodeId) (key : EdgeKey) : Option (SliceTree × NodeId) :=
  let lead (n : TreeNode) : Option TreeNode := do
    let n ← if n.terminal then n.upgrade else some n
    return n.addInbound key pred
  match t.lookup? line with
  | some place => t.change place lead
  | none => (t.insert line).change t.nodes.size lead

/-- Records a constant that defines `register` as the origin of the value tracked at `pred` under `target`. A line that
paths lead through stays so. -/
def addConstant (t : SliceTree) (line : LineId) (pred : NodeId) (register target : Register) :
    Option (SliceTree × NodeId) :=
  match t.lookup? line with
  | some place =>
    t.change place fun n => some (n.addInbound ⟨if n.terminal then constSource else register, target⟩ pred)
  | none =>
    (t.insert line).change t.nodes.size fun n =>
      some (({ n with terminal := true, register := register } : TreeNode).addInbound ⟨constSource, target⟩ pred)

/-- Adds an edge to an existing node. -/
def link (t : SliceTree) (id pred : NodeId) (key : EdgeKey) : Option SliceTree :=
  match t.node? id with
  | none => some t
  | some _ =>
    (t.change id fun n =>
      some (n.addInbound (if n.terminal then { key with source := constSource } else key) pred)).map Prod.fst

/-- What a check of a tree finds. -/
inductive Fault where
  | displaced (id : NodeId) (place : Nat)
  | misfiled (line : LineId) (found id : NodeId)
  | missing (id pred : NodeId)
deriving DecidableEq, Repr

/-- The message of a failed check; `showLine` gives the text of a line. -/
def Fault.message (showLine : LineId → String) : Fault → String
  | .displaced id place => "node " ++ toString id ++ " stored at " ++ toString place
  | .misfiled line found id => "line " ++ showLine line ++ " maps to " ++ toString found ++ ", not " ++ toString id
  | .missing id pred => "node " ++ toString id ++ " refers to missing node " ++ toString pred

/-- Checks the node at a place. A line without a node is taken to have the first one. -/
def checkNode (t : SliceTree) (n : TreeNode) (place : Nat) : Except Fault Unit :=
  let found := (t.lookup? n.line).getD 0
  if n.id ≠ place then .error (.displaced n.id place)
  else if found ≠ n.id then .error (.misfiled n.line found n.id)
  else
    match n.preds.find? fun p => p < 0 || (t.nodes.size : Int) ≤ p with
    | some p => .error (.missing n.id p)
    | none => .ok ()

/-- The first node that does not stand at its id, is not the node of its line, or has a predecessor that is no node. -/
def check (t : SliceTree) : Except Fault Unit := t.nodes.toList.zipIdx.forM fun (n, place) => t.checkNode n place

end SliceTree

end SmaliTrace.Slice
