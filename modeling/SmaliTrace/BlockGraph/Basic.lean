import SmaliTrace.ClassFile.Basic

/-!
Basic blocks of a method body. A line is named by its index in the body, a block by its index in the
graph.
-/
namespace SmaliTrace.BlockGraph

/-- A try range between two label lines, with its handler lines and the types they catch. -/
structure TryRange where
  start : Nat
  stop : Nat
  handlers : List Nat
  types : List String
deriving DecidableEq, Repr, Inhabited

/-- The line lies in the range. -/
def TryRange.covers (t : TryRange) (line : Nat) : Bool := t.start ≤ line && line ≤ t.stop

/-- A basic block. `label` is its number in the depth-first walk from the entry, if it is reached. -/
structure Block where
  lines : List Nat
  label : Option Nat
  preds : List Nat
  succs : List Nat
  returns : Bool
  throws : Bool
  jumps : Bool
  dead : Bool
  isTry : Bool
  isHandler : Bool
deriving DecidableEq, Repr, Inhabited

/-- The block graph of a body; a body without executable lines has no blocks. -/
structure Graph where
  blocks : Array Block := #[]
  tries : List TryRange := []
  unlinked : Bool := false
deriving DecidableEq, Repr, Inhabited

namespace Graph

/-- The block that holds the line, with the position of the line in it. -/
def locate? (g : Graph) (line : Nat) : Option (Nat × Nat) := do
  let b ← g.blocks.findIdx? fun block => block.lines.contains line
  let block ← g.blocks[b]?
  some (b, block.lines.idxOf line)

end Graph

end SmaliTrace.BlockGraph
