import SmaliTrace.Slice.Origin

/-!
What fills an array: the walk back to its allocation, and the walk forward over the element stores
made while a register holds it. Both enter a block at most once, and no more blocks than the options
allow.
-/
namespace SmaliTrace.Slice
open SmaliTrace.Smali SmaliTrace.ClassFile

/-- The blocks that a walk has entered, and how many more it may enter. -/
structure Frontier where
  room : Nat
  visited : List Nat
deriving DecidableEq, Repr, Inhabited

namespace Frontier

/-- The frontier of a walk that starts in a block and may enter `depth` blocks in all. -/
def start (depth : Int) (block : Nat) : Frontier := ⟨(depth - 1).toNat, [block]⟩

/-- Enters those of the blocks that are new, while there is room. -/
def enter (f : Frontier) : List Nat → Frontier × List Nat
  | [] => (f, [])
  | b :: rest =>
    if f.room = 0 ∨ b ∈ f.visited then f.enter rest
    else
      let (g, entered) := enter ⟨f.room - 1, b :: f.visited⟩ rest
      (g, b :: entered)

theorem room_enter (f : Frontier) (blocks : List Nat) :
    (f.enter blocks).1.room + (f.enter blocks).2.length = f.room := by
  induction blocks generalizing f with
  | nil => simp [enter]
  | cons b rest ih =>
    unfold enter
    split
    · exact ih f
    · next free =>
      have := ih ⟨f.room - 1, b :: f.visited⟩
      simp only [not_or] at free
      simp only [List.length_cons]
      simp only at this
      omega

end Frontier

/-- The successors, or predecessors, of a block. -/
def neighbours (x : Context) (b : BlockId) (side : BlockGraph.Block → List Nat) : List Nat :=
  ((x.index.block? b).map side).getD []

/-- The lines of a block before the position `index + 1`, last first. -/
def linesBack (x : Context) (b : BlockId) (index : Int) : List Site :=
  ((x.index.sites b).take (index + 1).toNat).reverse

/-- The lines of a block from the position on. -/
def linesOn (x : Context) (b : BlockId) (index : Int) : List Site :=
  (x.index.sites b).drop index.toNat

/-- The position of the last line of a block. -/
def lastPosition (x : Context) (b : BlockId) : Int :=
  ((((x.index.block? b).map fun block => block.lines.length).getD 0 : Nat) : Int) - 1

/-- The walk over element stores comes to one: joins it to the slice, below the call that handed the
array over if there is one, and tracks the stored value. -/
def elementStore (r : RegisterSearch) (c : Cursor) (call : Option Site) (s : Site)
    (array value : Register) : SearchM Unit := do
  let c ←
    match call with
    | some call => step c call.id c.register c.register
    | none => pure c
  let c ← step c s.id array array
  fork r c value s.blockId ((s.position : Int) - 1) r.fuzzy

/-- Walks forward over lines while the register holds the array. The result tells whether it still
does after them. -/
def storesInBlock (x : Context) (r : RegisterSearch) (c : Cursor) (array : Register)
    (call : Option Site) : List Site → SearchM Bool
  | [] => pure true
  | s :: rest => do
    match s.operation with
    | .arrayPut value target _ =>
      if target = array then elementStore r c call s array value
      storesInBlock x r c array call rest
    | .invoke _ _ =>
      match redirectInto? x s array with
      | some redirect =>
        let value ← argumentOf x s redirect.src
        elementStore r c call s array value
      | none => pure ()
      storesInBlock x r c array call rest
    | op => if op.defines array then pure false else storesInBlock x r c array call rest

/-- Walks forward from the queued places, each a block with a position in it, while the register holds
the array. -/
def walkStores (x : Context) (r : RegisterSearch) (c : Cursor) (array : Register)
    (call : Option Site) (f : Frontier) (queue : List (BlockId × Int)) : SearchM Unit :=
  match queue with
  | [] => pure ()
  | (b, index) :: rest => do
    if ← storesInBlock x r c array call (linesOn x b index) then
      let next := f.enter (neighbours x b (·.succs))
      walkStores x r c array call next.1 (rest ++ next.2.map fun i => (⟨b.method, i⟩, 0))
    else walkStores x r c array call f rest
termination_by f.room + queue.length
decreasing_by
  · have := Frontier.room_enter f (neighbours x b (·.succs))
    simp only [List.length_append, List.length_map, List.length_cons]
    omega
  · simp

/-- Tracks every value stored into the array that the register holds from the place on. `call` is the
call that handed the array over, if any. -/
def arrayStores (x : Context) (r : RegisterSearch) (c : Cursor) (array : Register)
    (call : Option Site) (b : BlockId) (index : Int) : SearchM Unit :=
  walkStores x r c array call (.start x.options.arrayDepth b.index) [(b, index)]

/-- Follows an array that is passed as a parameter into every body that the call may run. -/
def argumentStores (x : Context) (r : RegisterSearch) (c : Cursor) (s : Site) (callee : MethodId)
    (index : Int) : SearchM Unit :=
  ((x.index.implementations callee).filter x.index.hasBody).forM fun body =>
    match (x.program.method? body).map (Method.paramRegister · index) with
    | none => pure ()
    | some (.error e) => illogical x s.id (.noParameter e)
    | some (.ok register) => arrayStores x r c register (some s) ⟨body, 0⟩ 0

/-- Follows the first of the arguments, which a call may fill: through the program's own bodies, or to
a library call, one fuzzy level deeper, that ends the path there. -/
def filledByCall (x : Context) (r : RegisterSearch) (c : Cursor) (s : Site) (method : MethodRef) :
    List Argument → SearchM Cursor
  | [] => pure c
  | a :: _ =>
    match x.index.resolve? method with
    | some callee => do
      argumentStores x r c s callee a.index
      pure c
    | none => terminal x c s.id .externalMethod method.text s.text (r.fuzzy + 1)

/-- The call copies into the array of the cursor: tracks the source of the copy. -/
def copiedFrom (x : Context) (r : RegisterSearch) (c : Cursor) (s : Site) (redirect : Redirect) :
    SearchM Cursor := do
  let source ← argumentOf x s redirect.src
  let c ← step c s.id c.register c.register
  fork r c source s.blockId ((s.position : Int) - 1) r.fuzzy
  pure c

/-- A call on the way back to the allocation of the array. -/
def arrayCall (x : Context) (r : RegisterSearch) (c : Cursor) (s : Site) (method : MethodRef) :
    SearchM Cursor := do
  if !s.operation.uses c.register || isAskedFor x s then pure c
  else
    match redirectInto? x s c.register with
    | some redirect => copiedFrom x r c s redirect
    | none =>
      let arguments ← argumentsOf x s
      filledByCall x r c s method
        (arguments.filter fun a => 0 ≤ a.index && a.register = c.register)

/-- One line on the way back to the allocation of the array that the cursor tracks. Nothing is left to
follow once the origin of the array is found. -/
def arrayLine (x : Context) (r : RegisterSearch) (c : Cursor) (s : Site) :
    SearchM (Option Cursor) := do
  match s.operation with
  | .newArray d _ type =>
    if d = c.register then
      opcodeValue x r c s type
      pure none
    else pure (some c)
  | .fillArrayData array label =>
    if array = c.register then
      payloadLoad x r c s label
      pure none
    else pure (some c)
  | .arrayPut value array _ =>
    if array = c.register then
      let c ← step c s.id c.register c.register
      fork r c value s.blockId ((s.position : Int) - 1) r.fuzzy
      pure (some c)
    else pure (some c)
  | .constLiteral d literal =>
    if d ≠ c.register then pure (some c)
    else if Literal.isZero literal then pure none
    else
      literalLoad x r c s literal
      pure none
  | .constClass d type =>
    if d = c.register then
      opcodeValue x r c s type
      pure none
    else pure (some c)
  | .move d source | .arrayGet d source _ =>
    if d = c.register then some <$> step c s.id c.register source else pure (some c)
  | .staticGet d field | .instanceGet d _ field =>
    if d = c.register then
      let c ← step c s.id c.register c.register
      let (owner, name) := x.program.fieldTarget field
      admitContent .array (contentFrom r c s.id owner name c.register r.offset)
      pure none
    else pure (some c)
  | .moveResult d =>
    if d = c.register then
      fork r c c.register s.blockId s.position r.fuzzy
      pure none
    else pure (some c)
  | .invoke _ method => some <$> arrayCall x r c s method
  | op =>
    if op.defines c.register then
      opcodeValue x r c s s.instruction.op
      pure none
    else pure (some c)

/-- The lines of a block on the way back to the allocation of the array. -/
def arrayLines (x : Context) (r : RegisterSearch) (c : Cursor) : List Site → SearchM (Option Cursor)
  | [] => pure (some c)
  | s :: rest => do
    match ← arrayLine x r c s with
    | some c => arrayLines x r c rest
    | none => pure none

/-- A block that the walk back to the allocation has still to scan. -/
structure ArrayFrame where
  block : BlockId
  index : Int
  cursor : Cursor
deriving Repr, Inhabited

/-- Walks back from the queued places to what the array was allocated and filled by. -/
def walkArray (x : Context) (r : RegisterSearch) (f : Frontier) (queue : List ArrayFrame) :
    SearchM Unit :=
  match queue with
  | [] => pure ()
  | frame :: rest => do
    match ← arrayLines x r frame.cursor (linesBack x frame.block frame.index) with
    | none => walkArray x r f rest
    | some c =>
      let next := f.enter (neighbours x frame.block (·.preds))
      callersAtEntry x r c frame.block
      walkArray x r next.1 (rest ++ next.2.map fun i =>
        let b : BlockId := ⟨frame.block.method, i⟩
        ⟨b, lastPosition x b, c⟩)
termination_by f.room + queue.length
decreasing_by
  · simp
  · have := Frontier.room_enter f (neighbours x frame.block (·.preds))
    simp only [List.length_append, List.length_map, List.length_cons]
    omega

/-- Looks for what filled the array that the cursor tracks, from the place back. -/
def arrayOrigin (x : Context) (r : RegisterSearch) (c : Cursor) (b : BlockId) (index : Int) :
    SearchM Unit :=
  walkArray x r (.start x.options.arrayDepth b.index) [⟨b, index, c⟩]

end SmaliTrace.Slice
