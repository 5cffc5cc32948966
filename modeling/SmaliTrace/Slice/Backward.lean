import SmaliTrace.Slice.Array

/-!
Backward searches: from a use of a value to the lines that define it, block by block, through fields,
results and callers.
-/
namespace SmaliTrace.Slice
open SmaliTrace.Smali SmaliTrace.ClassFile

/-- A call on the way back that reads the tracked register without making its value: it may still
change the object that the register holds. -/
def backwardCall (x : Context) (r : RegisterSearch) (c : Cursor) (s : Site) (method : MethodRef) :
    SearchM Cursor := do
  if !s.operation.uses c.register || isAskedFor x s then pure c
  else
    let arguments ← argumentsOf x s
    match redirectInto? x s c.register with
    | some redirect => copiedFrom x r c s redirect
    | none =>
      let receiver := (arguments.head?.map Argument.register).filter fun _ =>
        !s.instruction.isStaticInvoke
      if receiver = some c.register then
        let skip := c.register
        let c ← step c s.id c.register c.register
        libraryArguments x r c s method (some skip)
        pure c
      else
        filledByCall x r c s method
          (arguments.filter fun a => a.register = c.register && 0 ≤ a.index && isArrayType a.type)

/-- A block may hold a return before its last line only in a try range right behind a handler. -/
def mayPassReturn (x : Context) (b : BlockId) : Bool :=
  match x.index.block? b with
  | some block =>
    block.isTry &&
      match block.preds with
      | [p] => ((x.index.block? ⟨b.method, p⟩).map (·.isHandler)).getD false
      | _ => false
  | none => false

/-- Arithmetic that defines the tracked register: goes on with its first operand, and asks for the
second one unless it is the same. -/
def backwardMath (r : RegisterSearch) (c : Cursor) (s : Site) (left right : Register) :
    SearchM (Option Cursor) := do
  let c ← step c s.id c.register left
  if right ≠ left then fork r c right s.blockId ((s.position : Int) - 1) r.fuzzy
  pure (some c)

/-- A read of a field that defines the tracked register. A field that is read back while its own
stores are tracked ends the path. -/
def backwardFieldRead (x : Context) (r : RegisterSearch) (c : Cursor) (s : Site) (field : FieldRef) :
    SearchM Unit := do
  let (owner, name) := x.program.fieldTarget field
  let c ← step c s.id c.register c.register
  if owner ++ "->" ++ name = r.field then pure ()
  else admitContent .field (contentFrom r c s.id owner name c.register r.offset)

/-- One line on the way back, when it defines the tracked register. -/
def backwardDefinition (x : Context) (r : RegisterSearch) (c : Cursor) (s : Site) :
    SearchM (Option Cursor) := do
  match s.operation with
  | .move _ source | .unaryMath _ source => some <$> step c s.id c.register source
  | .literalMath _ source raw =>
    let c ← step c s.id c.register source
    match Literal.value raw with
    | .error e => misshapen x s.id (.mathLiteral raw e)
    | .ok value =>
      record x c s.id .mathConstant value raw r.fuzzy
      pure (some c)
  | .inPlaceMath d source => backwardMath r c s d source
  | .binaryMath _ left right => backwardMath r c s left right
  | .arrayGet _ array _ =>
    let c ← step c s.id c.register array
    arrayOrigin x r c s.blockId ((s.position : Int) - 1)
    pure none
  | .moveResult _ =>
    pickedResult x r c s
    pure none
  | .constLiteral _ raw =>
    literalLoad x r c s raw
    pure none
  | .constClass _ type | .newInstance _ type | .newArray _ _ type =>
    opcodeValue x r c s type
    pure none
  | .instanceGet _ _ field | .staticGet _ field =>
    backwardFieldRead x r c s field
    pure none
  | _ =>
    opcodeValue x r c s s.instruction.op
    pure none

/-- One line on the way back. Nothing is left to follow when the path ends there. -/
def backwardLine (x : Context) (r : RegisterSearch) (c : Cursor) (s : Site) :
    SearchM (Option Cursor) := do
  if s.operation.defines c.register then backwardDefinition x r c s
  else
    match s.operation with
    | .returnVoid | .returnValue _ =>
      if mayPassReturn x s.blockId then pure (some c)
      else illogical x s.id (.returnInside s.block)
    | .fillArrayData array label =>
      if array = c.register then
        payloadLoad x r c s label
        pure none
      else pure (some c)
    | .arrayPut value array _ =>
      if array = c.register then
        let c ← step c s.id c.register c.register
        fork r c value s.blockId ((s.position : Int) - 1) r.fuzzy
        pure (some c)
      else pure (some c)
    | .invoke _ method => some <$> backwardCall x r c s method
    | _ => pure (some c)

/-- The lines of a block on the way back. -/
def backwardLines (x : Context) (r : RegisterSearch) (c : Cursor) :
    List Site → SearchM (Option Cursor)
  | [] => pure (some c)
  | s :: rest => do
    match ← backwardLine x r c s with
    | some c => backwardLines x r c rest
    | none => pure none

/-- Goes on from the top of a block: at the end of every predecessor, and at the callers if the block
is the entry and the register holds a parameter. -/
def blockTop (x : Context) (r : RegisterSearch) (c : Cursor) : SearchM Unit := do
  (neighbours x r.block (·.preds)).forM fun i =>
    let pred : BlockId := ⟨r.block.method, i⟩
    admitRegister
      { register := c.register, field := r.field, block := pred, index := lastPosition x pred,
        fuzzy := r.fuzzy, offset := r.offset, origin := c.origin,
        originRegister := c.originRegister }
  callersAtEntry x r c r.block

/-- Tracks a register back to its definitions. -/
def backwardRegister (x : Context) (r : RegisterSearch) : SearchM Unit := do
  match ← backwardLines x r r.cursor (linesBack x r.block r.index) with
  | some c => blockTop x r c
  | none => pure ()

/-- The field declaration that a content search names. -/
def trackedField? (x : Context) (c : ContentSearch) : Option (LineId × FieldDecl) := do
  let (cls, f) ← x.program.resolveField? c.owner c.identifier
  let field ← x.program.field? cls f
  some (.declaration cls f, field)

/-- The stores to a field, with the registers they store. -/
def fieldStores (x : Context) (key : String) : List (Site × Register) :=
  (x.index.sitesOf (x.index.fieldWrites key)).filterMap fun s =>
    match s.operation with
    | .instancePut value _ _ | .staticPut value _ => some (s, value)
    | _ => none

/-- The reads of a field, with the registers they define. -/
def fieldLoads (x : Context) (key : String) : List (Site × Register) :=
  (x.index.sitesOf (x.index.fieldReads key)).filterMap fun s =>
    s.operation.result?.map (s, ·)

/-- Records a field that is declared outside the program; the constant stays on the line that reads
it. -/
def foreignField (x : Context) (c : ContentSearch) : SearchM Unit := do
  let _ ← terminal x (c.cursor c.name) c.line .fieldConstant c.name (x.label c.line).text c.fuzzy

/-- Tracks the value of every store to a field, and its initial value if that may be the one read. -/
def backwardField (x : Context) (c : ContentSearch) : SearchM Unit := do
  let stores := fieldStores x c.name
  stores.forM fun (s, value) => do
    let here ← step (c.cursor value) s.id value value
    fork (c.asRegisterSearch c.name) here value s.blockId ((s.position : Int) - 1) c.fuzzy
  match trackedField? x c with
  | none => if stores.isEmpty then foreignField x c
  | some (line, f) =>
    if f.value ≠ "" && (f.isStatic && f.isFinal || stores.isEmpty) then
      match Literal.value f.value with
      | .error e => misshapen x line (.initialValue c.name e)
      | .ok value =>
        let _ ← terminal x (c.cursor c.name) line .fieldConstant value f.value c.fuzzy

/-- Tracks what is stored into an array that a field holds: the arrays assigned to the field, and the
elements written through any read of it. -/
def backwardArrayField (x : Context) (c : ContentSearch) : SearchM Unit := do
  let r := c.asRegisterSearch c.name
  let stores := fieldStores x c.name
  stores.forM fun (s, value) => do
    let here ← step (c.cursor value) s.id value value
    arrayOrigin x r here s.blockId ((s.position : Int) - 1)
  (fieldLoads x c.name).forM fun (s, array) => do
    let here ← step (c.cursor array) s.id array array
    arrayStores x r here array none s.blockId ((s.position : Int) + 1)
  if stores.isEmpty && (trackedField? x c).isNone then foreignField x c

/-- The lines that return a value from the bodies that a call to the method may run, with the
registers they return. -/
def returnedValues (x : Context) (m : MethodId) : List (Site × Register) :=
  (x.index.implementations m).flatMap fun body =>
    (x.index.sitesOf (x.index.returns body)).filterMap fun s =>
      match s.operation with
      | .returnValue value => some (s, value)
      | _ => none

/-- Tracks the returned value of every body that a call may run. A call without such a body ends the
path. -/
def backwardResult (x : Context) (c : ContentSearch) : SearchM Unit := do
  match ((trackedMethod? x c).map (returnedValues x)).getD [] with
  | [] =>
    let callee := ((x.index.callee? c.line).map MethodRef.text).getD ""
    let _ ← terminal x (c.cursor c.name) c.line .externalMethod callee (x.label c.line).text c.fuzzy
  | values =>
    values.forM fun (s, value) => do
      let here ← step (c.cursor value) s.id value value
      admitRegister
        { register := value, block := s.blockId, index := (s.position : Int) - 1, fuzzy := c.fuzzy,
          offset := c.offset, origin := here.origin, originRegister := value }

/-- The lines that a backward pattern asks about. -/
def backwardSeeds (x : Index) (p : BackwardPattern) : List LineId :=
  match p.start with
  | some line => [line]
  | none =>
    if p.trackReturn then (x.program.findMethods p.owner p.method p.params).flatMap x.returns
    else x.callSitesMatching p.owner p.method p.params

/-- The register that a search at the seed tracks. -/
def seedRegister (x : Context) (p : BackwardPattern) (s : Site) : SearchM Register :=
  match s.operation with
  | .returnVoid => illogical x s.id .returnWithoutValue
  | .returnValue value => pure value
  | .invoke _ _ =>
    match s.instruction.argument p.param with
    | .ok register => pure register
    | .error e => illogical x s.id (.seedParameter p.param e)
  | op => illogical x s.id (.badSeed op.kind)

/-- Puts the seed into the slice and asks for its register. -/
def seedBackward (x : Context) (p : BackwardPattern) (line : LineId) : SearchM Unit := do
  match x.index.site? line with
  | none => illogical x line .seedOutsideBlocks
  | some s =>
    let register ← seedRegister x p s
    let id ← onWork (·.addNode s.id none ⟨register, register⟩)
    admitRegister
      { register := register, block := s.blockId, index := (s.position : Int) - 1,
        origin := some (id : Int), originRegister := register }

end SmaliTrace.Slice
