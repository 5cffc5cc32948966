import SmaliTrace.Counters
import SmaliTrace.Slice.Graph
import Std.Data.HashMap

/-!
The worklist of a search: four queues whose items are searched at most once. A repeated request is
answered by linking its origin to the nodes that the earlier item produced, and will produce.
-/
namespace SmaliTrace.Slice
open SmaliTrace.Smali (Register)

/-- A request to track a register through a block, from the line at `index` on. `field` is the field
whose stores started the search, or empty; `origin` is the node that the value flows into, where it
is known as `originRegister`. -/
structure RegisterSearch where
  register : Register
  field : String := ""
  block : BlockId
  index : Int
  fuzzy : Int := 0
  offset : Int := 0
  origin : Option NodeId
  originRegister : Register
deriving DecidableEq, Repr, Inhabited

/-- A request to track what a field, an array in a field, or a method's result holds, from the access
at `line`. -/
structure ContentSearch where
  owner : String
  identifier : String
  line : LineId
  fuzzy : Int := 0
  offset : Int := 0
  origin : Option NodeId
  originRegister : Register
deriving DecidableEq, Repr, Inhabited

/-- The three kinds of content. -/
inductive Content where
  | field
  | array
  | result
deriving DecidableEq, Hashable, Repr, Inhabited

/-- What makes two requests the same work. -/
inductive ItemKey where
  | register (register : Register) (block : BlockId) (index : Int)
  | content (kind : Content) (name : String)
deriving DecidableEq, Hashable, Repr, Inhabited

/-- The key of a register search. -/
def RegisterSearch.key (r : RegisterSearch) : ItemKey := .register r.register r.block r.index

/-- The name of the content searched. -/
def ContentSearch.name (c : ContentSearch) : String := c.owner ++ "->" ++ c.identifier

/-- The key of a content search. -/
def ContentSearch.key (kind : Content) (c : ContentSearch) : ItemKey := .content kind c.name

/-- A node that asks for the producers of its value, with the register it knows it as. -/
structure Origin where
  node : Option NodeId
  register : Register
deriving DecidableEq, Repr, Inhabited

/-- What an item has produced under its origin, which later requests wait for the same, and which
items it passed its origin on to. -/
structure Record where
  origin : Origin
  produced : List (NodeId × EdgeKey) := []
  pending : List Origin := []
  children : List Nat := []
deriving DecidableEq, Repr, Inhabited

/-- The record serves the origin already. -/
def Record.serves (r : Record) (o : Origin) : Bool := r.origin = o || r.pending.contains o

/-- The worklist together with the slice graph that it links. -/
structure Worklist where
  graph : SliceGraph := {}
  maxFuzzy : Int
  registers : List RegisterSearch := []
  fields : List ContentSearch := []
  arrays : List ContentSearch := []
  results : List ContentSearch := []
  records : Array Record := #[]
  done : Std.HashMap ItemKey Nat := {}
  current : Option Nat := none
  completed : Nat := 0
  rejected : Nat := 0
deriving Inhabited

namespace Worklist

/-- Links a produced node to an origin, unless it is the origin itself. -/
def linkProduced (g : SliceGraph) (o : Origin) (p : NodeId × EdgeKey) : SliceGraph :=
  if some p.1 = o.node then g else g.link p.1 o.node ⟨p.2.source, o.register⟩

/-- The number of records that do not serve the origin. -/
def unserved (records : Array Record) (o : Origin) : Nat := records.countP fun r => !r.serves o

/-- The record also serves the origin from now on. -/
def Record.await (r : Record) (o : Origin) : Record := { r with pending := r.pending ++ [o] }

theorem unserved_modify_lt (records : Array Record) (o : Origin) (i : Nat) (h : i < records.size)
    (idle : records[i].serves o = false) :
    unserved (records.modify i (Record.await · o)) o < unserved records o := by
  have served : (Record.await records[i] o).serves o = true := by
    simp [Record.serves, Record.await]
  have positive : 0 < unserved records o := by
    unfold unserved
    rw [Array.countP_pos_iff]
    exact ⟨records[i], by simp, by simp [idle]⟩
  have eq : records.modify i (Record.await · o) = records.set i (Record.await records[i] o) := by
    simp [Array.modify, Array.modifyM, h]
  rw [eq]
  unfold unserved
  rw [Array.countP_set]
  unfold unserved at positive
  rw [if_pos (by simp [idle]), if_neg (by simp [served])]
  omega

/-- Makes the records on the stack, and those they passed their origin on to, serve the origin: links
what they have produced and notes the origin for what is to come. -/
def serve (records : Array Record) (g : SliceGraph) (o : Origin) (stack : List Nat) :
    Array Record × SliceGraph :=
  match stack with
  | [] => (records, g)
  | i :: stack =>
    if h : i < records.size then
      if _idle : records[i].serves o = false then
        serve (records.modify i (Record.await · o)) (records[i].produced.foldl (linkProduced · o) g) o
          (records[i].children ++ stack)
      else serve records g o stack
    else serve records g o stack
termination_by (unserved records o, stack.length)
decreasing_by
  · exact Prod.Lex.left _ _ (unserved_modify_lt records o i h _idle)
  · apply Prod.Lex.right; simp
  · apply Prod.Lex.right; simp

/-- Connects a repeated request to what the earlier item produced and will produce. -/
def duplicate (w : Worklist) (i : Nat) (o : Origin) : Worklist :=
  let (records, graph) := serve w.records w.graph o [i]
  { w with records := records, graph := graph }

/-- When the request carries the origin of the item in progress unchanged, its record becomes a child
of that item and serves the same duplicates. -/
def inherit (w : Worklist) (i : Nat) (o : Origin) : Worklist :=
  match w.current with
  | none => w
  | some c =>
    match w.records[c]? with
    | none => w
    | some r =>
      if c = i ∨ r.origin ≠ o ∨ i ∈ r.children then w
      else
        let w := { w with records := w.records.modify c fun r => { r with children := r.children ++ [i] } }
        r.pending.foldl (fun w p => w.duplicate i p) w

/-- The level of a request, which is a 64-bit word, exceeds the ceiling. -/
def tooFuzzy (w : Worklist) (fuzzy offset : Int) : Bool :=
  w.maxFuzzy < Number.wrap (fuzzy + offset)

/-- Takes a request: refuses it when it is too fuzzy, links it when it was made before, and else
queues it. The result tells whether it was queued. -/
def accept (w : Worklist) (key : ItemKey) (fuzzy offset : Int) (o : Origin)
    (enqueue : Worklist → Worklist) : Worklist × Bool :=
  if w.tooFuzzy fuzzy offset then ({ w with rejected := w.rejected + 1 }, false)
  else
    match w.done[key]? with
    | some i => ((w.duplicate i o).inherit i o, false)
    | none =>
      let i := w.records.size
      let w := { w with records := w.records.push { origin := o }, done := w.done.insert key i }
      (enqueue (w.inherit i o), true)

/-- Takes a register search. -/
def admitRegister (w : Worklist) (r : RegisterSearch) : Worklist × Bool :=
  w.accept r.key r.fuzzy r.offset ⟨r.origin, r.originRegister⟩ fun w =>
    { w with registers := w.registers ++ [r] }

/-- Puts a content search at the end of its queue. -/
def enqueueContent (kind : Content) (c : ContentSearch) (w : Worklist) : Worklist :=
  match kind with
  | .field => { w with fields := w.fields ++ [c] }
  | .array => { w with arrays := w.arrays ++ [c] }
  | .result => { w with results := w.results ++ [c] }

/-- Takes a content search. -/
def admitContent (w : Worklist) (kind : Content) (c : ContentSearch) : Worklist × Bool :=
  w.accept (c.key kind) c.fuzzy c.offset ⟨c.origin, c.originRegister⟩ (enqueueContent kind c)

/-- Takes the first register search off its queue and makes it the item in progress. -/
def popRegister? (w : Worklist) : Option (RegisterSearch × Worklist) :=
  match w.registers with
  | [] => none
  | r :: rest => some (r, { w with registers := rest, current := w.done[r.key]? })

/-- Takes the first content search of a kind off its queue and makes it the item in progress. -/
def popContent? (w : Worklist) (kind : Content) : Option (ContentSearch × Worklist) :=
  match kind with
  | .field =>
    match w.fields with
    | [] => none
    | c :: rest => some (c, { w with fields := rest, current := w.done[c.key .field]? })
  | .array =>
    match w.arrays with
    | [] => none
    | c :: rest => some (c, { w with arrays := rest, current := w.done[c.key .array]? })
  | .result =>
    match w.results with
    | [] => none
    | c :: rest => some (c, { w with results := rest, current := w.done[c.key .result]? })

/-- Notes that the item in progress produced a node under its origin, and links it to all that wait
for the same. -/
def produce (w : Worklist) (node : NodeId) (key : EdgeKey) : Worklist :=
  match w.current with
  | none => w
  | some c =>
    match w.records[c]? with
    | none => w
    | some r =>
      { w with
        records := w.records.modify c fun r => { r with produced := r.produced ++ [(node, key)] }
        graph := r.pending.foldl (fun g o => linkProduced g o (node, key)) w.graph }

/-- Counts the register search in progress as completed. -/
def complete (w : Worklist) : Worklist := { w with completed := w.completed + 1 }

/-- No request is waiting. -/
def isFinished (w : Worklist) : Bool :=
  w.registers.isEmpty && w.fields.isEmpty && w.arrays.isEmpty && w.results.isEmpty

/-- The counters of completed and refused requests. -/
def tally (w : Worklist) : Tally :=
  (({} : Tally).add .registerSearches w.completed).add .rejectedFuzzy w.rejected

/-- Adds a line to the slice graph. -/
def addNode (w : Worklist) (line : LineId) (pred : Option NodeId) (key : EdgeKey) :
    Worklist × Nat :=
  let (graph, id) := w.graph.addNode line pred key
  ({ w with graph := graph }, id)

/-- Adds a constant's line to the slice graph. -/
def addConstant (w : Worklist) (line : LineId) (pred : Option NodeId) (register target : Register) :
    Worklist × Nat :=
  let (graph, id) := w.graph.addConstant line pred register target
  ({ w with graph := graph }, id)

end Worklist

end SmaliTrace.Slice
