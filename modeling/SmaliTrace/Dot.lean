import SmaliTrace.BlockGraph.Build
import SmaliTrace.Slice.Graph

/-!
Drawings of block graphs and slice graphs in the DOT language.
-/
namespace SmaliTrace.Dot
open SmaliTrace.Smali SmaliTrace.ClassFile

/-- A box of a drawing. -/
structure Box where
  number : Nat
  label : String
  filled : Bool := false
deriving DecidableEq, Repr

/-- An arrow between two boxes. -/
structure Arrow where
  tail : Nat
  head : Nat
  label : Option String := none
deriving DecidableEq, Repr

/-- The statement that declares a box; boxes are counted from one in the text. -/
def Box.text (b : Box) : String :=
  "n" ++ toString (b.number + 1) ++ "[label=" ++ Text.quote b.label ++ ",shape=\"box\"" ++
    (if b.filled then ",style=\"filled\"" else "") ++ "];"

/-- The statement that declares an arrow. -/
def Arrow.text (a : Arrow) : String :=
  "n" ++ toString (a.tail + 1) ++ "->n" ++ toString (a.head + 1) ++
    (match a.label with
    | some l => "[label=" ++ Text.quote l ++ "]"
    | none => "") ++ ";"

/-- The numbers below `n` in the order of their decimal texts. -/
def textualOrder (n : Nat) : List Nat :=
  (List.range n).mergeSort fun a b => decide (toString a ≤ toString b)

/-- The drawing of the boxes and of the arrows that leave them. Boxes, and arrows by the box that they
leave, stand in the order of the boxes' numbers as texts. -/
def drawing (boxes : List Box) (arrows : List Arrow) : String :=
  let order := textualOrder boxes.length
  let boxLines := order.filterMap fun i => boxes[i]?.map Box.text
  let arrowLines := order.flatMap fun i => (arrows.filter fun a => a.tail = i).map Arrow.text
  "digraph  \x7b\n\t\n" ++ String.join ((boxLines ++ arrowLines).map fun l => "\t" ++ l ++ "\n") ++
    "\t\n\x7d\n"

/-- The label of a block: its index and depth-first number, and the executable lines. -/
def blockLabel (m : Method) (b : BlockGraph.Block) (index : Nat) : String :=
  let code := (b.lines.filterMap fun i => m.lines[i]?).filter CodeLine.executable
  let number : Int := match b.label with
    | some n => n
    | none => -1
  "B" ++ toString index ++ " (label " ++ toString number ++ ")\n" ++
    Text.join "\n" (code.map fun l => l.instruction.text)

/-- The drawing of a block graph. -/
def blockGraph (m : Method) (g : BlockGraph.Graph) : String :=
  let blocks := g.blocks.toList.zipIdx
  drawing (blocks.map fun (b, i) => { number := i, label := blockLabel m b i })
    (blocks.flatMap fun (b, i) => b.succs.map fun s => { tail := i, head := s })

/-- The drawing of a slice graph: arrows lead from a node to its predecessors, and terminal nodes are
filled. `caption` gives the text of a line. -/
def sliceGraph (caption : LineId → String) (g : Slice.SliceGraph) : String :=
  let nodes := g.nodes.toList.zipIdx
  drawing
    (nodes.map fun (n, i) =>
      { number := i, label := "#" ++ toString i ++ " " ++ caption n.line, filled := n.isTerminal })
    (nodes.flatMap fun (n, i) => n.inbound.flatMap fun (key, preds) =>
      preds.map fun p =>
        { tail := i, head := p.toNat, label := some (key.source ++ "/" ++ key.target) })

/-- The caption of a line: the signature of its method and its number before its text. -/
def caption (p : Program) (line : LineId) : String :=
  let l := p.label line
  match line.method?.bind p.method? with
  | some m => m.signature ++ ":" ++ toString l.number ++ "\n" ++ l.text
  | none => l.text

end SmaliTrace.Dot
