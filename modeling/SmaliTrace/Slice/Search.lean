import SmaliTrace.Index.Site
import SmaliTrace.Slice.Constant
import SmaliTrace.Slice.Fault
import SmaliTrace.Slice.Options
import SmaliTrace.Slice.Pattern
import SmaliTrace.Slice.Worklist

/-!
One search: what it looks at, what it has found so far, and the steps that all searches are made of.
-/
namespace SmaliTrace.Slice
open SmaliTrace.Smali SmaliTrace.ClassFile
open SmaliTrace.Text (Octets)

/-- The surroundings of a search, which it only reads. -/
structure Context where
  index : Index
  options : Options
  search : Nat
  forward : Bool
  pattern : Option BackwardPattern

/-- What a search has found so far. -/
structure State where
  work : Worklist
  constants : Array Constant := #[]
  tally : Tally := {}
deriving Inhabited

/-- A step of a search. What was found before a fault is kept. -/
abbrev SearchM := ExceptT Fault (StateM State)

/-- A value being followed inside a work item: the register that holds it, and the node it flows into
with the register known there. `direct` holds until the item adds its first node. -/
structure Cursor where
  register : Register
  origin : Option NodeId
  originRegister : Register
  direct : Bool := true
deriving DecidableEq, Repr, Inhabited

namespace Context

/-- The program under analysis. -/
def program (x : Context) : Program := x.index.program

/-- A line as messages show it. -/
def label (x : Context) (line : LineId) : LineLabel := x.program.label line

end Context

/-- Stops at an operand of the wrong shape. -/
def misshapen {α : Type} (x : Context) (line : LineId) (shape : Misshape) : SearchM α :=
  throw (.misshapen (x.label line) shape)

/-- Stops at a violated assumption. -/
def illogical {α : Type} (x : Context) (line : LineId) (surprise : Surprise) : SearchM α :=
  throw (.logic ⟨some (x.label line), surprise⟩)

/-- Applies a change to the worklist. -/
def onWork {α : Type} (f : Worklist → Worklist × α) : SearchM α :=
  modifyGet fun s =>
    let (work, a) := f s.work
    (a, { s with work := work })

/-- Asks for a register search. -/
def admitRegister (r : RegisterSearch) : SearchM Unit := do
  let _ ← onWork (·.admitRegister r)

/-- Asks for a content search. -/
def admitContent (kind : Content) (c : ContentSearch) : SearchM Unit := do
  let _ ← onWork (·.admitContent kind c)

/-- Notes a node as produced by the item in progress. -/
def produce (id : Nat) (key : EdgeKey) : SearchM Unit :=
  onWork fun w => (w.produce id key, ())

/-- Notes the node if it is the first one of the cursor. -/
def produceIf (direct : Bool) (id : Nat) (key : EdgeKey) : SearchM Unit :=
  if direct then produce id key else pure ()

/-- Adds a line to the slice as the next step of the cursor. `source` is the register that holds the
value at the line; the cursor goes on with `register`. -/
def step (c : Cursor) (line : LineId) (source register : Register) : SearchM Cursor := do
  let key : EdgeKey := ⟨source, c.originRegister⟩
  let id ← onWork (·.addNode line c.origin key)
  produceIf c.direct id key
  pure { register := register, origin := some (id : Int), originRegister := register, direct := false }

/-- Adds a constant to those of the search. -/
def keepConstant (k : Constant) : SearchM Unit :=
  modify fun s =>
    let (constants, isNew) := Slice.addConstant s.constants k
    { s with
      constants := constants
      tally := if isNew then s.tally.bump .constants else s.tally }

/-- Records a terminal value of the register that the cursor tracks. Work asked for afterwards hangs
below it. -/
def terminal (x : Context) (c : Cursor) (line : LineId) (kind : ConstantKind) (value : Octets)
    (raw : String) (fuzzy : Int) : SearchM Cursor := do
  let id ← onWork (·.addConstant line c.origin c.register c.originRegister)
  keepConstant
    { kind := kind, value := value, raw := raw, fuzzy := fuzzy, search := x.search, line := line,
      node := id }
  produceIf c.direct id ⟨c.register, c.originRegister⟩
  pure { c with origin := some (id : Int), originRegister := c.register, direct := false }

/-- Records a value that lives on the node of the cursor, such as a literal operand. -/
def record (x : Context) (c : Cursor) (line : LineId) (kind : ConstantKind) (value : Octets)
    (raw : String) (fuzzy : Int) : SearchM Unit :=
  keepConstant
    { kind := kind, value := value, raw := raw, fuzzy := fuzzy, search := x.search, line := line,
      node := c.origin.getD 0 }

/-- Asks for a register search that continues from the node of the cursor. -/
def fork (r : RegisterSearch) (c : Cursor) (register : Register) (block : BlockId) (index fuzzy : Int) :
    SearchM Unit :=
  admitRegister
    { register := register, field := r.field, block := block, index := index, fuzzy := fuzzy,
      offset := r.offset, origin := c.origin, originRegister := register }

/-- The cursor at the start of a register search. -/
def RegisterSearch.cursor (r : RegisterSearch) : Cursor :=
  { register := r.register, origin := r.origin, originRegister := r.originRegister }

/-- A cursor for a register at the start of a content search. -/
def ContentSearch.cursor (c : ContentSearch) (register : Register) : Cursor :=
  { register := register, origin := c.origin, originRegister := c.originRegister }

/-- The levels of a content search, for the register searches that it asks for. -/
def ContentSearch.asRegisterSearch (c : ContentSearch) (field : String) : RegisterSearch :=
  { register := "", field := field, block := default, index := 0, fuzzy := c.fuzzy,
    offset := c.offset, origin := c.origin, originRegister := c.originRegister }

/-- A content search that continues from the node of the cursor. -/
def contentFrom (r : RegisterSearch) (c : Cursor) (line : LineId) (owner identifier : String)
    (register : Register) (offset : Int) : ContentSearch :=
  { owner := owner, identifier := identifier, line := line, fuzzy := r.fuzzy, offset := offset,
    origin := c.origin, originRegister := register }

/-- The arguments of a call. -/
def argumentsOf (x : Context) (s : Site) : SearchM (List Argument) :=
  match s.instruction.arguments with
  | .ok arguments => pure arguments
  | .error e => misshapen x s.id (.arguments e)

/-- One argument of a call. -/
def argumentOf (x : Context) (s : Site) (index : Int) : SearchM Register :=
  match s.instruction.argument index with
  | .ok r => pure r
  | .error e => misshapen x s.id (.arguments e)

/-- The call copies data into the argument that the register holds: the redirect that says so. -/
def redirectInto? (x : Context) (s : Site) (r : Register) : Option Redirect := do
  let method ← s.operation.method?
  let redirect ← x.options.redirects.get? method.signature
  if (s.instruction.argument redirect.dst).toOption = some r then some redirect else none

/-- The call copies data out of the argument that the register holds: the redirect that says so. -/
def redirectFrom? (x : Context) (s : Site) (r : Register) : Option Redirect := do
  let method ← s.operation.method?
  let redirect ← x.options.redirects.get? method.signature
  if (s.instruction.argument redirect.src).toOption = some r then some redirect else none

/-- The call is one of those that the search was asked about. -/
def isAskedFor (x : Context) (s : Site) : Bool :=
  match x.pattern, s.operation.method? with
  | some p, some r => p.accepts r
  | _, _ => false

/-- The method that a tracker of return values names. -/
def trackedMethod? (x : Context) (c : ContentSearch) : Option MethodId :=
  let id := c.identifier.toList
  let (name, params) :=
    match Text.cut? ['('] id with
    | none => (id, [])
    | some (name, rest) => (name, if Text.endsWith ")" rest then rest.dropLast else rest)
  x.program.declared? c.owner (String.ofList name) (String.ofList params)

end SmaliTrace.Slice
