import Mathlib.Logic.Relation
import SmaliTrace.Index.Site
import SmaliTrace.Slice.Options

/-!
The paths of a value through the blocks of a program, said without any search: backward, line by line up a block, from
the top of a block to the end of a predecessor, and from the top of a method to the calls of it; forward, down a block
and on to its successors, over the lines that hand the value on; and the way back of an array, over the lines that it
comes from another register at.
-/
namespace SmaliTrace.Slice
open SmaliTrace.Smali SmaliTrace.ClassFile

/-! ### Backward paths -/

/-- A register at a place in a block: `above` lines of the block are still to come on the way up. -/
structure Place where
  register : Register
  block : BlockId
  above : Nat
deriving DecidableEq, Repr

/-- The operation neither defines the register nor fills the array that the register holds. -/
def Spares (op : Operation) (r : Register) : Prop :=
  op.result? ≠ some r ∧ ∀ label, op ≠ .fillArrayData r label

/-- The kinds of lines that a value comes through from a source register. -/
def carrying : List Kind := [.move, .unaryMath, .binaryMath]

/-- The kinds of lines that a value begins at. -/
def originating : List Kind :=
  [.const, .newInstance, .newArray, .instanceOf, .arrayLength, .compare, .moveException]

/-- One step of a backward path. -/
inductive PathStep (x : Index) : Place → Place → Prop
  | pass {r : Register} {b : BlockId} {n : Nat} {s : Site} (line : (x.sites b)[n]? = some s)
      (spared : Spares s.operation r) : PathStep x ⟨r, b, n + 1⟩ ⟨r, b, n⟩
  | through {r source : Register} {b : BlockId} {n : Nat} {s : Site} (line : (x.sites b)[n]? = some s)
      (defines : s.operation.result? = some r) (carries : s.operation.kind ∈ carrying)
      (comes : source ∈ s.operation.sources) : PathStep x ⟨r, b, n + 1⟩ ⟨source, b, n⟩
  | pred {r : Register} {b : BlockId} {p : Nat} {block before : BlockGraph.Block}
      (found : x.block? b = some block) (edge : p ∈ block.preds)
      (found' : x.block? ⟨b.method, p⟩ = some before) :
      PathStep x ⟨r, b, 0⟩ ⟨r, ⟨b.method, p⟩, before.lines.length⟩
  | caller {r argument : Register} {m : MethodId} {method : Method} {index : Int} {s : Site}
      (isMethod : x.program.method? m = some method) (parameter : method.paramIndex? r = some index)
      (calls : s ∈ x.sitesOf (x.callSitesOf m)) (passes : s.instruction.argument index = .ok argument) :
      PathStep x ⟨r, ⟨m, 0⟩, 0⟩ ⟨argument, s.blockId, s.position⟩

/-- A backward path. -/
abbrev Path (x : Index) : Place → Place → Prop := Relation.ReflTransGen (PathStep x)

/-- The line right above the place makes the value of the register. -/
inductive Ends (x : Index) : Place → LineId → Prop
  | intro {r : Register} {b : BlockId} {n : Nat} {s : Site} (line : (x.sites b)[n]? = some s)
      (defines : s.operation.result? = some r) (makes : s.operation.kind ∈ originating) :
      Ends x ⟨r, b, n + 1⟩ s.id

/-! ### Forward paths -/

/-- The kinds of lines that hand a value that they read on to their result. -/
def handing : List Kind :=
  [.move, .unaryMath, .binaryMath, .compare, .instanceOf, .arrayLength, .arrayGet, .instanceGet]

/-- The operation neither defines the register nor returns it. -/
def Leaves (op : Operation) (r : Register) : Prop := op.result? ≠ some r ∧ op ≠ .returnValue r

/-- One step of a forward path. The line at a place is the one right below it. -/
inductive ForwardStep (x : Index) : Place → Place → Prop
  | pass {r : Register} {b : BlockId} {n : Nat} {s : Site} (line : (x.sites b)[n]? = some s)
      (left : Leaves s.operation r) : ForwardStep x ⟨r, b, n⟩ ⟨r, b, n + 1⟩
  | through {r result : Register} {b : BlockId} {n : Nat} {s : Site} (line : (x.sites b)[n]? = some s)
      (uses : s.operation.uses r = true) (hands : s.operation.kind ∈ handing)
      (makes : s.operation.result? = some result) : ForwardStep x ⟨r, b, n⟩ ⟨result, b, n + 1⟩
  | succ {r : Register} {b : BlockId} {c : Nat} {block : BlockGraph.Block} (found : x.block? b = some block)
      (edge : c ∈ block.succs) : ForwardStep x ⟨r, b, block.lines.length⟩ ⟨r, ⟨b.method, c⟩, 0⟩

/-- A forward path. -/
abbrev ForwardPath (x : Index) : Place → Place → Prop := Relation.ReflTransGen (ForwardStep x)

/-- The line at the place hands the register to a method outside the program that is not redirected. -/
inductive Delivers (x : Index) (options : Options) : Place → LineId → Prop
  | intro {r : Register} {b : BlockId} {n : Nat} {s : Site} {arguments : List Register} {method : MethodRef}
      (line : (x.sites b)[n]? = some s) (calls : s.operation = .invoke arguments method)
      (uses : r ∈ arguments) (foreign : x.resolve? method = none)
      (plain : options.redirects.get? method.signature = none) : Delivers x options ⟨r, b, n⟩ s.id

/-! ### The way back of an array -/

/-- The operation copies the register from the source. -/
def Moves (op : Operation) (r source : Register) : Prop := op = .move r source

/-- The operation copies the register from the source, or reads it there as a row. -/
def Draws (op : Operation) (r source : Register) : Prop :=
  op = .move r source ∨ ∃ position, op = .arrayGet r source position

/-- One step of the way back of an array. The lines that give it from another register are those that `gives`
tells, and the blocks that it may enter are those that `enters` tells. -/
inductive ArrayStep (x : Index) (enters : BlockId → Prop) (gives : Operation → Register → Register → Prop) :
    Place → Place → Prop
  | pass {r : Register} {b : BlockId} {n : Nat} {s : Site} (line : (x.sites b)[n]? = some s)
      (spared : Spares s.operation r) : ArrayStep x enters gives ⟨r, b, n + 1⟩ ⟨r, b, n⟩
  | carry {r source : Register} {b : BlockId} {n : Nat} {s : Site} (line : (x.sites b)[n]? = some s)
      (given : gives s.operation r source) : ArrayStep x enters gives ⟨r, b, n + 1⟩ ⟨source, b, n⟩
  | pred {r : Register} {b : BlockId} {p : Nat} {block before : BlockGraph.Block}
      (found : x.block? b = some block) (edge : p ∈ block.preds)
      (found' : x.block? ⟨b.method, p⟩ = some before) (entered : enters ⟨b.method, p⟩) :
      ArrayStep x enters gives ⟨r, b, 0⟩ ⟨r, ⟨b.method, p⟩, before.lines.length⟩

/-- A way back of the array from the start, which does not enter the block of the start again. -/
abbrev ArrayPath (x : Index) (gives : Operation → Register → Register → Prop) (start : Place) : Place → Prop :=
  Relation.ReflTransGen (ArrayStep x (· ≠ start.block) gives) start

/-- Every way back over copies and rows that comes to the place comes there with its register. -/
def Sole (x : Index) (start place : Place) : Prop :=
  ∀ r, ArrayPath x Draws start ⟨r, place.block, place.above⟩ → r = place.register

/-- A way back over copies alone, on which no block is entered that another way enters with another register. -/
abbrev StorePath (x : Index) (start : Place) : Place → Prop :=
  Relation.ReflTransGen
    (fun place next => ArrayStep x (· ≠ start.block) Moves place next ∧ (place.above = 0 → Sole x start next)) start

end SmaliTrace.Slice
