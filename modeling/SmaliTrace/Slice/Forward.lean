import SmaliTrace.Slice.Backward

/-!
Forward searches: from a line that defines a value to the lines that use it, block by block, into
callees, fields, arrays and callers.
-/
namespace SmaliTrace.Slice
open SmaliTrace.Smali SmaliTrace.ClassFile

/-- The line after a site that picks up its result, with the register it defines. -/
def pickUp? (x : Index) (s : Site) : Option (Site × Register) := do
  let next ← x.nextExecutable? s
  match next.operation with
  | .moveResult d => some (next, d)
  | _ => none

/-- Goes on after the line that picks up the result of a site, if there is one. -/
def followPickUp (x : Context) (r : RegisterSearch) (c : Cursor) (s : Site) (fuzzy : Int) :
    SearchM Unit :=
  match pickUp? x.index s with
  | none => pure ()
  | some (next, d) => fork r c d next.blockId ((next.position : Int) + 1) fuzzy

/-- Goes on inside a body that a call may run, with the parameters that the arguments fill. -/
def enterBody (x : Context) (r : RegisterSearch) (c : Cursor) (s : Site) (arguments : List Argument)
    (body : MethodId) : SearchM Unit :=
  arguments.forM fun a =>
    match (x.program.method? body).map (Method.paramRegister · a.index) with
    | none => pure ()
    | some (.error e) => illogical x s.id (.noParameter e)
    | some (.ok register) =>
      admitRegister
        { register := register, field := r.field, block := ⟨body, 0⟩, index := 0, fuzzy := r.fuzzy,
          offset := r.offset, origin := c.origin, originRegister := register }

/-- Follows the tracked register into a call: through a copy, into the parameters of the program's own
bodies, or to the result of a library call, one fuzzy level deeper. -/
def forwardCall (x : Context) (r : RegisterSearch) (c : Cursor) (s : Site) (method : MethodRef) :
    SearchM Unit := do
  match redirectFrom? x s c.register with
  | some redirect =>
    let target ← argumentOf x s redirect.dst
    let c ← step c s.id c.register target
    fork r c target s.blockId ((s.position : Int) + 1) r.fuzzy
  | none =>
    let arguments ← argumentsOf x s
    let callee := (x.index.resolve? method).bind fun id => (x.program.method? id).map (id, ·)
    match callee.filter fun (_, m) => !m.isNative with
    | some (id, _) =>
      let register := c.register
      let c ← step c s.id register register
      ((x.index.implementations id).filter x.index.hasBody).forM
        (enterBody x r c s (arguments.filter fun a => a.register = register))
    | none =>
      let kind := if callee.isSome then .nativeMethod else .externalMethod
      let c ← terminal x c s.id kind method.text s.text r.fuzzy
      followPickUp x r c s (r.fuzzy + 1)

/-- The field that an array register was loaded from, if the load is in the same block before the
site. -/
def arrayField? (x : Context) (s : Site) (array : Register) : Option (String × String) := do
  let d ← x.index.definition? s array
  let field ← d.operation.field?
  some (x.program.fieldTarget field)

/-- The tracked value is stored into an array: goes on with the field that holds the array, or with the
array itself. -/
def forwardElement (x : Context) (r : RegisterSearch) (c : Cursor) (s : Site) (array : Register) :
    SearchM Unit := do
  let c ← step c s.id c.register array
  match arrayField? x s array with
  | some (owner, name) => admitContent .array (contentFrom r c s.id owner name array r.offset)
  | none => fork r c array s.blockId ((s.position : Int) + 1) r.fuzzy

/-- The tracked value is stored into a field. -/
def forwardStore (x : Context) (r : RegisterSearch) (c : Cursor) (s : Site) (field : FieldRef) :
    SearchM Unit := do
  let register := c.register
  let c ← step c s.id register register
  let (owner, name) := x.program.fieldTarget field
  admitContent .field (contentFrom r c s.id owner name register r.offset)

/-- The tracked value flows into the result of a line. -/
def forwardResult (r : RegisterSearch) (c : Cursor) (s : Site) (result : Register) :
    SearchM Unit := do
  let c ← step c s.id c.register result
  fork r c result s.blockId ((s.position : Int) + 1) r.fuzzy

/-- The tracked value is returned: goes on at the callers if the options say so. -/
def forwardReturn (x : Context) (r : RegisterSearch) (c : Cursor) (s : Site) : SearchM Unit := do
  let register := c.register
  let c ← step c s.id register register
  match x.program.method? s.method with
  | none => pure ()
  | some m =>
    if x.options.trackForwardReturns then
      admitContent .result (contentFrom r c s.id m.owner m.identifier register r.offset)

/-- A line that reads the tracked register. The result tells whether the path goes on after it. -/
def forwardUse (x : Context) (r : RegisterSearch) (c : Cursor) (s : Site) : SearchM Bool := do
  match s.operation with
  | .move d _ | .unaryMath d _ | .literalMath d _ _ | .inPlaceMath d _ | .binaryMath d _ _ |
    .arrayGet d _ _ | .compare d _ _ | .instanceOf d _ _ | .arrayLength d _ | .instanceGet d _ _ =>
    forwardResult r c s d
    pure true
  | .arrayPut value array _ =>
    if value = c.register then forwardElement x r c s array
    pure true
  | .instancePut value _ field | .staticPut value field =>
    if value = c.register then forwardStore x r c s field
    pure true
  | .filledNewArray _ _ =>
    let c ← step c s.id c.register c.register
    followPickUp x r c s r.fuzzy
    pure true
  | .returnValue _ =>
    forwardReturn x r c s
    pure false
  | .invoke _ method =>
    forwardCall x r c s method
    pure true
  | _ => pure true

/-- The lines of a block, while the register holds the value. The result tells whether it still does
after them. -/
def forwardLines (x : Context) (r : RegisterSearch) (c : Cursor) : List Site → SearchM Bool
  | [] => pure true
  | s :: rest => do
    let goesOn ← if s.operation.uses c.register then forwardUse x r c s else pure true
    if goesOn && !s.operation.defines c.register then forwardLines x r c rest else pure false

/-- Tracks a register on to its uses. -/
def forwardRegister (x : Context) (r : RegisterSearch) : SearchM Unit := do
  let c := r.cursor
  if ← forwardLines x r c (linesOn x r.block r.index) then
    (neighbours x r.block (·.succs)).forM fun i =>
      admitRegister
        { register := c.register, field := r.field, block := ⟨r.block.method, i⟩, index := 0,
          fuzzy := r.fuzzy, offset := r.offset, origin := c.origin,
          originRegister := c.originRegister }

/-- Goes on at every read of a field. -/
def forwardField (x : Context) (c : ContentSearch) : SearchM Unit :=
  (fieldLoads x c.name).forM fun (s, d) => do
    let here ← step (c.cursor d) s.id d d
    admitRegister
      { register := d, field := c.name, block := s.blockId, index := (s.position : Int) + 1,
        fuzzy := c.fuzzy, offset := c.offset, origin := here.origin, originRegister := d }

/-- Goes on at the callers that pick up the result of a method. -/
def forwardCallers (x : Context) (c : ContentSearch) : SearchM Unit :=
  match trackedMethod? x c with
  | none => pure ()
  | some m =>
    (x.index.sitesOf (x.index.callSitesOf m)).forM fun s =>
      match pickUp? x.index s with
      | none => pure ()
      | some (next, d) => do
        let here ← step (c.cursor d) s.id d d
        let here ← step here next.id d d
        admitRegister
          { register := d, block := next.blockId, index := (next.position : Int) + 1,
            fuzzy := c.fuzzy, offset := c.offset, origin := here.origin, originRegister := d }

/-- The start of a forward search: a line that makes a value, and the line after which a register
holds it. -/
structure ForwardSeed where
  line : Site
  holder : Site
  register : Register
deriving Repr, Inhabited

/-- The seed at a line that defines a register itself. -/
def definingSeed? (s : Site) : Option ForwardSeed :=
  s.operation.result?.map fun d => ⟨s, s, d⟩

/-- The starts that a forward pattern asks about. Calls whose result is not picked up are none. -/
def forwardSeeds (x : Index) (p : ForwardPattern) : List ForwardSeed :=
  if p.objectType ≠ "" then (x.sitesOf (x.allocationSites p.objectType)).filterMap definingSeed?
  else if p.method ≠ "" then
    (x.sitesOf (x.callSitesMatching p.owner p.method p.params)).filterMap fun s =>
      (pickUp? x s).map fun (next, d) => ⟨s, next, d⟩
  else (x.sitesOf (x.literalSites p.literal)).filterMap definingSeed?

/-- Puts the seed into the slice and asks for its register. -/
def seedForward (seed : ForwardSeed) : SearchM Unit := do
  let key : EdgeKey := ⟨seed.register, seed.register⟩
  let id ← onWork (·.addNode seed.line.id none key)
  let id ←
    if seed.holder.id = seed.line.id then pure id
    else onWork (·.addNode seed.holder.id (some (id : Int)) key)
  admitRegister
    { register := seed.register, block := seed.holder.blockId,
      index := (seed.holder.position : Int) + 1, origin := some (id : Int),
      originRegister := seed.register }

end SmaliTrace.Slice
