import SmaliTrace.Slice.Search

/-!
Where values come from: literals, payload data, arguments at call sites, and the results and arguments
of calls.
-/
namespace SmaliTrace.Slice
open SmaliTrace.Smali SmaliTrace.ClassFile
open SmaliTrace.Text (Octets)

/-- A `.local` names the register between the site and the next executable line of the body. -/
def hasLocal (x : Context) (s : Site) (r : Register) : Bool :=
  match x.program.method? s.method with
  | none => false
  | some m =>
    ((m.lines.toList.drop (s.index + 1)).takeWhile fun l => !l.executable).any fun l =>
      match l.operation with
      | .localName named => named = r
      | _ => false

/-- Records the literal that a load puts into the register of the cursor. -/
def literalLoad (x : Context) (r : RegisterSearch) (c : Cursor) (s : Site) (raw : String) :
    SearchM Unit :=
  match Literal.value raw with
  | .error e => misshapen x s.id (.literal raw e)
  | .ok value => do
    let kind := if hasLocal x s c.register then .localVariable else .localAnonymous
    let _ ← terminal x c s.id kind value raw r.fuzzy

/-- Records a line that makes a value by itself, such as an allocation. -/
def opcodeValue (x : Context) (r : RegisterSearch) (c : Cursor) (s : Site) (value : String) :
    SearchM Unit := do
  let _ ← terminal x c s.id .internalOpcode value s.text r.fuzzy

/-- The entries of a payload, from the lines after its label on; `inside` holds once it has begun. -/
def payloadEntries (x : Context) (m : MethodId) (label : String) (inside : Bool) :
    List (CodeLine × Nat) → Except LogicError (List String)
  | [] => .error ⟨none, .openPayload label (x.program.methodText m)⟩
  | (l, i) :: rest =>
    match l.operation with
    | .label _ | .directive | .localName _ => payloadEntries x m label inside rest
    | .dataStart _ => payloadEntries x m label true rest
    | .data literal _ =>
      (payloadEntries x m label inside rest).map fun entries =>
        if inside then literal :: entries else entries
    | .dataEnd => .ok []
    | _ => .error ⟨some (x.label (.body m i)), .notAPayload label⟩

/-- The raw entries of the payload that a label of the method points at. -/
def payload (x : Context) (m : MethodId) (label : String) : Except LogicError (List String) :=
  let lines := ((x.program.method? m).map Method.lines).getD #[]
  match (lines.toList.zipIdx).dropWhile fun (l, _) => l.operation ≠ .label label with
  | [] => .error ⟨none, .noPayloadLabel label (x.program.methodText m)⟩
  | _ :: rest => payloadEntries x m label false rest

/-- Byte sequences joined with a separator. -/
def joinOctets (separator : String) : List Octets → List UInt8
  | [] => []
  | [v] => v.bytes
  | v :: rest => v.bytes ++ (Octets.ofString separator).bytes ++ joinOctets separator rest

/-- Records the payload data that a line puts into an array as one constant. -/
def payloadLoad (x : Context) (r : RegisterSearch) (c : Cursor) (s : Site) (label : String) :
    SearchM Unit :=
  match payload x s.method label with
  | .error e => misshapen x s.id (.payload e)
  | .ok raws => do
    let values ← raws.mapM fun raw =>
      match Literal.value raw with
      | .ok v => pure v
      | .error e => misshapen x s.id (.element raw e)
    let value : Octets :=
      ⟨(Octets.ofString "[").bytes ++ joinOctets ", " values ++ (Octets.ofString "]").bytes⟩
    let _ ← terminal x c s.id .array value (Text.join " " raws) r.fuzzy

/-- Goes on at one call of the method with the argument that fills the parameter. -/
def enterCaller (x : Context) (r : RegisterSearch) (c : Cursor) (m : MethodId) (index : Int)
    (s : Site) : SearchM Unit := do
  match s.instruction.argument index with
  | .error e => illogical x s.id (.siteParameter index (x.program.methodText m) e)
  | .ok register =>
    let key : EdgeKey := ⟨register, c.originRegister⟩
    let id ← onWork (·.addNode s.id c.origin key)
    produceIf c.direct id key
    admitRegister
      { register := register, field := r.field, block := s.blockId, index := (s.position : Int) - 1,
        fuzzy := r.fuzzy, offset := r.offset, origin := some (id : Int), originRegister := register }

/-- Goes on at every call of the method with the argument that fills the parameter of the cursor. A
method that nothing calls ends the path. -/
def callers (x : Context) (r : RegisterSearch) (c : Cursor) (m : MethodId) (index : Int) :
    SearchM Unit := do
  match x.index.sitesOf (x.index.callSitesOf m) with
  | [] =>
    match x.index.sites ⟨m, 0⟩ with
    | [] => pure ()
    | entry :: _ =>
      let name := x.program.methodText m
      let _ ← terminal x c entry.id .uncalledMethod (name ++ " param " ++ toString index) name r.fuzzy
  | sites => sites.forM (enterCaller x r c m index)

/-- At the top of the entry block, goes on at the callers if the register holds a parameter. -/
def callersAtEntry (x : Context) (r : RegisterSearch) (c : Cursor) (b : BlockId) : SearchM Unit :=
  if b.index ≠ 0 then pure ()
  else
    match (x.program.method? b.method).bind fun m => m.paramIndex? c.register with
    | none => pure ()
    | some index => callers x r c b.method index

/-- The argument of a library call is tracked: it is not the register to skip, not the receiver of the
method that the call is in, and it carries data. -/
def carriesData (x : Context) (s : Site) (signature : String) (skip : Option Register)
    (a : Argument) : Bool :=
  let receiver := a.index = -1 && a.register = "p0" &&
    !(((x.program.method? s.method).map Method.isStatic).getD false)
  some a.register ≠ skip && !receiver && !x.options.isWhitelisted signature a.index

/-- Tracks the arguments of a library call, one fuzzy level deeper. `skip` is a register that is
tracked already. -/
def libraryArguments (x : Context) (r : RegisterSearch) (c : Cursor) (s : Site) (method : MethodRef)
    (skip : Option Register) : SearchM Unit := do
  let arguments ← argumentsOf x s
  (arguments.filter (carriesData x s method.signature skip)).forM fun a =>
    fork r c a.register s.blockId ((s.position : Int) - 1) (r.fuzzy + 1)

/-- The offset under which results of the program's own methods are tracked: it leaves three levels
at most. -/
def resultOffset (x : Context) (r : RegisterSearch) : Int :=
  max r.offset (Number.wrap (x.options.maxFuzzy - 3))

/-- Follows the value that a call returns: into the bodies it may run, or to its arguments. -/
def callResult (x : Context) (r : RegisterSearch) (c : Cursor) (s : Site) (method : MethodRef) :
    SearchM Unit := do
  match (x.index.resolve? method).bind fun id => (x.program.method? id).map (id, ·) with
  | some (_, callee) =>
    if callee.isNative then
      let _ ← terminal x c s.id .nativeMethod callee.text s.text r.fuzzy
    else
      let c' ← step c s.id c.register c.register
      admitContent .result
        (contentFrom r c' s.id callee.owner callee.identifier c.register (resultOffset x r))
  | none =>
    let c ← terminal x c s.id .externalMethod method.text s.text r.fuzzy
    libraryArguments x r c s method none

/-- The register was last set by a constant load in the block of the site. -/
def setByLiteral (x : Context) (s : Site) (r : Register) : Bool :=
  match x.index.definition? s r with
  | some d => d.operation.kind = .const
  | none => false

/-- Follows the elements of an array that is built from registers. -/
def builtArray (x : Context) (r : RegisterSearch) (c : Cursor) (s : Site) (elements : List Register)
    (type : String) : SearchM Unit := do
  let c ← step c s.id c.register c.register
  elements.forM fun e => fork r c e s.blockId ((s.position : Int) - 1) r.fuzzy
  if elements.all (setByLiteral x s) then pure ()
  else record x c s.id .internalOpcode type s.text r.fuzzy

/-- Follows the result that a line picks up to the line that made it. -/
def pickedResult (x : Context) (r : RegisterSearch) (c : Cursor) (s : Site) : SearchM Unit :=
  match x.index.previousExecutable? s with
  | none => illogical x s.id .noProducer
  | some p =>
    match p.operation with
    | .filledNewArray elements type => builtArray x r c p elements type
    | .invoke _ method => callResult x r c p method
    | op => illogical x s.id (.wrongProducer op.kind)

end SmaliTrace.Slice
