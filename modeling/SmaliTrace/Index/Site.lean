import SmaliTrace.Index.Basic

/-!
Lines in their blocks: a site is a line of an analyzed method together with the place it has in the
block graph.
-/
namespace SmaliTrace
open SmaliTrace.ClassFile SmaliTrace.Smali

/-- A line of a body, with its block and its position there. -/
structure Site where
  method : MethodId
  index : Nat
  line : CodeLine
  block : Nat
  position : Nat
deriving DecidableEq, Repr, Inhabited

namespace Site

/-- The line as an identity. -/
def id (s : Site) : LineId := .body s.method s.index

/-- The block of the site. -/
def blockId (s : Site) : BlockId := ⟨s.method, s.block⟩

/-- What the line does. -/
def operation (s : Site) : Operation := s.line.operation

/-- The decoded line. -/
def instruction (s : Site) : Instruction := s.line.instruction

/-- The text of the line. -/
def text (s : Site) : String := s.line.instruction.text

end Site

namespace Index

/-- The site of a line, if it is in a block. -/
def site? (x : Index) (id : LineId) : Option Site :=
  match id with
  | .body m i => do
    let (b, position) ← x.locate? id
    let line ← x.program.line? m i
    some ⟨m, i, line, b.index, position⟩
  | .declaration _ _ => none

/-- The sites of a block, in order. -/
def sites (x : Index) (b : BlockId) : List Site :=
  match x.block? b with
  | none => []
  | some block =>
    block.lines.zipIdx.filterMap fun (i, position) =>
      (x.program.line? b.method i).map fun line => ⟨b.method, i, line, b.index, position⟩

/-- The sites of the lines that are in blocks. -/
def sitesOf (x : Index) (lines : List LineId) : List Site := lines.filterMap x.site?

/-- The sites of the block before a site, nearest first. -/
def sitesBefore (x : Index) (s : Site) : List Site := ((x.sites s.blockId).take s.position).reverse

/-- The sites of the block after a site. -/
def sitesAfter (x : Index) (s : Site) : List Site := (x.sites s.blockId).drop (s.position + 1)

/-- The block has a single neighbour in the given list. -/
def onlyNeighbour? (x : Index) (s : Site) (neighbours : BlockGraph.Block → List Nat) :
    Option BlockId :=
  match (x.block? s.blockId).map neighbours with
  | some [b] => some ⟨s.method, b⟩
  | _ => none

/-- The executable line after a site, in its block or in the only successor of that. -/
def nextExecutable? (x : Index) (s : Site) : Option Site :=
  match (x.sitesAfter s).find? fun t => t.line.executable with
  | some t => some t
  | none => do
    let b ← x.onlyNeighbour? s (·.succs)
    (x.sites b).find? fun t => t.line.executable

/-- The executable line before a site, in its block or in the only predecessor of that. -/
def previousExecutable? (x : Index) (s : Site) : Option Site :=
  match (x.sitesBefore s).find? fun t => t.line.executable with
  | some t => some t
  | none => do
    let b ← x.onlyNeighbour? s (·.preds)
    (x.sites b).reverse.find? fun t => t.line.executable

/-- The site that last defined the register before the given one, in its block. -/
def definition? (x : Index) (s : Site) (r : Register) : Option Site :=
  (x.sitesBefore s).find? fun t => t.operation.defines r

end Index

end SmaliTrace
