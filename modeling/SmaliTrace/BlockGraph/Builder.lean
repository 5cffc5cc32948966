import SmaliTrace.BlockGraph.Build
import SmaliTrace.Program.Basic

/-!
Building blocks in place. Methods, lines and blocks are objects that others refer to, and the blocks of a method are
built by writing to them: the try ranges while the links are collected, then the blocks and the block of each line, then
the edges and the labels. An error can come in between, and what was written by then is taken back.
-/
namespace SmaliTrace.BlockGraph
open SmaliTrace.ClassFile SmaliTrace.Smali

/-- What is written to a method: its fault, its try ranges, its blocks and the mark that some are not linked. -/
structure MethodCell where
  fault : Option MethodFault := none
  tries : List TryRange := []
  blocks : List BlockId := []
  unlinked : Bool := false

/-- What the methods, their lines and the blocks hold. -/
structure Heap where
  method : MethodId → MethodCell
  lineBlock : MethodId → Nat → Option BlockId
  block : BlockId → Block

namespace Heap

/-- Writes to a method. -/
def setMethod (h : Heap) (id : MethodId) (f : MethodCell → MethodCell) : Heap :=
  { h with method := fun k => if k = id then f (h.method k) else h.method k }

/-- Writes the block of a line. -/
def setLine (h : Heap) (id : MethodId) (line : Nat) (b : Option BlockId) : Heap :=
  { h with lineBlock := fun k i => if k = id ∧ i = line then b else h.lineBlock k i }

/-- Writes to a block. -/
def setBlock (h : Heap) (b : BlockId) (f : Block → Block) : Heap :=
  { h with block := fun k => if k = b then f (h.block k) else h.block k }

/-- Adds an edge between two blocks, unless there is one. -/
def addEdge (h : Heap) (a b : BlockId) : Heap :=
  if b.index ∈ (h.block a).succs then h
  else
    (h.setBlock a fun x => { x with succs := x.succs ++ [b.index] }).setBlock b fun x =>
      { x with preds := x.preds ++ [a.index] }

/-- Marks the method as broken, and takes back its blocks, its try ranges and the blocks of its lines. -/
def rollBack (h : Heap) (m : Method) (id : MethodId) (e : MethodFault) : Heap :=
  let h := h.setMethod id fun c => { c with fault := some e, blocks := [], tries := [] }
  (List.range m.lines.size).foldl (fun h line => h.setLine id line none) h

end Heap

/-- The heap, and the links found so far. -/
structure Builder where
  heap : Heap
  links : List Link := []

/-- A part of the building. An error leaves what was written. -/
abbrev BuildM := EStateM FlowError Builder

/-- The links and try ranges found so far. -/
def Builder.flow (s : Builder) (id : MethodId) : Flow := ⟨s.links, (s.heap.method id).tries⟩

/-- Collects what one line contributes. -/
def collectLine (m : Method) (id : MethodId) (line : Nat) : BuildM Unit := fun s =>
  match addLine m (s.flow id) line with
  | .ok flow => .ok () ⟨s.heap.setMethod id fun c => { c with tries := flow.tries }, flow.links⟩
  | .error e => .error e s

/-- Makes a block of the lines. Its edges and its label are still missing. -/
def newBlock (m : Method) (id : MethodId) (part : List Nat) (b : Nat) : BuildM Unit := modify fun s =>
  let h := s.heap.setBlock ⟨id, b⟩ fun _ => makeBlock m (s.flow id) [] [] part b
  let h := part.foldl (fun h line => h.setLine id line (some ⟨id, b⟩)) h
  { s with heap := h.setMethod id fun c => { c with blocks := c.blocks ++ [⟨id, b⟩] } }

/-- Makes the blocks. -/
def partitionLines (m : Method) (id : MethodId) : BuildM Unit := do
  let s ← get
  (partition m s.links).zipIdx.forM fun (part, b) => newBlock m id part b

/-- Makes an edge of a link, between the blocks of its lines; a bridge inside one block makes none. -/
def connectLink (m : Method) (id : MethodId) (link : Link) : BuildM Unit := fun s =>
  match s.heap.lineBlock id link.src, s.heap.lineBlock id link.dst with
  | some a, some b => .ok () (if link.bridge && a = b then s else { s with heap := s.heap.addEdge a b })
  | _, _ => .error ⟨(m.lineLabel? link.src).getD default, .outsideBlocks⟩ s

/-- Makes an edge to the next block, unless control never falls through the last line. -/
def connectNext (m : Method) (a b : BlockId) : BuildM Unit := modify fun s =>
  match (lastExecutable? m (s.heap.block a).lines).bind (lineKind? m) with
  | some kind => if kind.endsBlock then s else { s with heap := s.heap.addEdge a b }
  | none => s

/-- Makes the edges. -/
def connect (m : Method) (id : MethodId) : BuildM Unit := do
  let s ← get
  s.links.forM (connectLink m id)
  let s ← get
  let blocks := (s.heap.method id).blocks
  (blocks.zip blocks.tail).forM fun (a, b) => connectNext m a b

/-- The successors of a block of the method. -/
def Builder.succs (s : Builder) (id : MethodId) (b : Nat) : List Nat :=
  ((s.heap.method id).blocks[b]?.map fun block => (s.heap.block block).succs).getD []

/-- Numbers the blocks in the order in which they are reached depth first from the entry. -/
def labelBlocks (id : MethodId) : BuildM Unit := modify fun s =>
  let count := (s.heap.method id).blocks.length
  let order := Graph.preorder (s.succs id) (List.range count) [0]
  let h := order.zipIdx.foldl (fun h (b, k) => h.setBlock ⟨id, b⟩ fun x => { x with label := some k }) s.heap
  { s with heap := if order.length < count then h.setMethod id fun c => { c with unlinked := true } else h }

/-- Builds the blocks of a body, if something in it is executed. -/
def buildBody (m : Method) (id : MethodId) : BuildM Unit :=
  if (List.range m.lines.size).any (executable m) then do
    (List.range m.lines.size).forM (collectLine m id)
    partitionLines m id
    connect m id
    labelBlocks id
  else pure ()

/-- Builds the blocks of a method. A method that is broken already stays as it is. -/
def buildBlocks (m : Method) (id : MethodId) (h : Heap) : Except MethodFault Unit × Heap :=
  match (h.method id).fault with
  | some e => (.error e, h)
  | none =>
    match buildBody m id { heap := h } with
    | .ok _ s => (.ok (), s.heap)
    | .error e s => (.error (.flow e), s.heap.rollBack m id (.flow e))

/-- Visits a method of the program. One that kept no line is not looked at. -/
def Heap.visit (p : Program) (h : Heap) (id : MethodId) : Heap :=
  match p.method? id with
  | none => h
  | some m => if m.lines.isEmpty then h else (buildBlocks m id h).2

end SmaliTrace.BlockGraph
