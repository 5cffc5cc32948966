import SmaliTrace.ClassFile.Access
import SmaliTrace.Smali.Decoder

/-!
Classes, fields, methods and body lines as a class file declares them, and the register frame of a
method.
-/
namespace SmaliTrace.ClassFile
open SmaliTrace.Smali

/-- A line as messages show it. -/
structure LineLabel where
  method : Option String
  number : Int
  text : String
deriving DecidableEq, Repr, Inhabited

/-- `method:number: text`, or `number: text` for a line outside methods. -/
def LineLabel.show (l : LineLabel) : String :=
  match l.method with
  | some m => m ++ ":" ++ toString l.number ++ ": " ++ l.text
  | none => toString l.number ++ ": " ++ l.text

/-- One line of a method body. -/
structure CodeLine where
  number : Nat
  instruction : Instruction
deriving DecidableEq, Repr, Inhabited

namespace CodeLine

/-- What the line does. -/
def operation (l : CodeLine) : Operation := l.instruction.operation

/-- The family of the line. -/
def kind (l : CodeLine) : Kind := l.instruction.kind

/-- The line is executed. -/
def executable (l : CodeLine) : Bool := l.kind.executable

end CodeLine

/-- Why a body cannot be decoded: the file, the line number, and the fault there. -/
inductive BodyFault where
  | undecodable (path : String) (line : Nat) (error : DecodeError)
  | badCount (path : String) (line : Nat) (text : String) (error : Number.ReadError)
deriving DecidableEq, Repr

/-- The message of a body fault. -/
def BodyFault.message : BodyFault → String
  | .undecodable path line error => path ++ ":" ++ toString line ++ ": " ++ error.message
  | .badCount path line text error =>
    path ++ ":" ++ toString line ++ ": bad register count: strconv.Atoi: parsing " ++
      Text.quote text ++ ": " ++ error.text

/-- The fault ends the reading of the file, and not of the body only. -/
def BodyFault.isFatal : BodyFault → Bool
  | .undecodable _ _ error => error.flaw.isFatal
  | .badCount .. => false

/-- A method declaration with its body. The frame size counts the parameters. -/
structure Method where
  owner : String
  name : String
  params : List String
  result : String
  flags : List AccessFlag
  registers : Int := 0
  lines : Array CodeLine := #[]
  fault : Option BodyFault := none
deriving DecidableEq, Repr, Inhabited

/-- Why a method has no register for a parameter. -/
inductive ParameterError where
  | noReceiver (method : String)
  | outOfRange (method : String) (index : Int)
deriving DecidableEq, Repr

/-- The message of a parameter error. -/
def ParameterError.message : ParameterError → String
  | .noReceiver method => method ++ ": static method has no receiver"
  | .outOfRange method index =>
    method ++ ": parameter index " ++ toString index ++ " out of range"

namespace Method

/-- A reference to the method. -/
def ref (m : Method) : MethodRef := ⟨m.owner, m.name, m.params, m.result⟩

/-- The parameter types as they stand between the parentheses. -/
def paramText (m : Method) : String := m.ref.paramText

/-- The method without its result type. -/
def signature (m : Method) : String := m.ref.signature

/-- `owner->name(params)result`. -/
def text (m : Method) : String := m.ref.text

/-- The method without its owner and result, as trackers of return values name it. -/
def identifier (m : Method) : String := m.name ++ "(" ++ m.paramText ++ ")"

def isStatic (m : Method) : Bool := m.flags.contains .static

def isNative (m : Method) : Bool := m.flags.contains .native

def isPrivate (m : Method) : Bool := m.flags.contains .private

def isAbstract (m : Method) : Bool := m.flags.contains .abstract

def isConstructor (m : Method) : Bool := m.flags.contains .constructor || m.name = "<init>"

/-- The method has the name and parameters. -/
def isNamed (m : Method) (name params : String) : Bool := m.name = name && m.paramText = params

/-- The number of the first parameter register that holds no receiver. -/
def firstSlot (m : Method) : Nat := if m.isStatic then 0 else 1

/-- The number of registers that the receiver and the parameters take. -/
def paramSlots (m : Method) : Nat := m.firstSlot + slotCount m.params

/-- The `p` register of a parameter, or of the receiver for index -1. -/
def paramRegister (m : Method) (index : Int) : Except ParameterError Register :=
  if index = -1 then
    if m.isStatic then .error (.noReceiver m.text) else .ok "p0"
  else if index < 0 ∨ (m.params.length : Int) ≤ index then .error (.outOfRange m.text index)
  else .ok (register 'p' (m.firstSlot + slotCount (m.params.take index.toNat) : Nat))

/-- The spelling of a register that is unique in the method: `v` registers that hold parameters take
their `p` name. -/
def canonical (m : Method) (r : Register) : Register :=
  if m.registers = 0 then r
  else
    match r.toList with
    | 'v' :: digits =>
      match Number.readSigned digits with
      | .error _ => r
      | .ok n =>
        let base := Number.wrap (m.registers - m.paramSlots)
        if base ≤ n then register 'p' (Number.wrap (n - base)) else r
    | _ => r

/-- The index of the type whose slots, from `position` on, include the slot. -/
def slotIndex? (slot : Int) (index position : Nat) : List String → Option Int
  | [] => none
  | type :: types =>
    if (position : Int) ≤ slot ∧ slot < (position + slotSize type : Nat) then some index
    else slotIndex? slot (index + 1) (position + slotSize type) types

/-- The parameter that a register holds on entry, -1 for the receiver. -/
def paramIndex? (m : Method) (r : Register) : Option Int :=
  match (m.canonical r).toList with
  | 'p' :: digits =>
    match Number.readSigned digits with
    | .error _ => none
    | .ok slot =>
      if !m.isStatic && slot = 0 then some (-1) else slotIndex? slot 0 m.firstSlot m.params
  | _ => none

/-- The register holds a parameter on entry. -/
def isParamRegister (m : Method) (r : Register) : Bool := (m.paramIndex? r).isSome

/-- The line of the body with the given index, as messages show it. -/
def lineLabel? (m : Method) (index : Nat) : Option LineLabel :=
  m.lines[index]?.map fun l => ⟨some m.text, l.number, l.instruction.text⟩

end Method

/-- A field declaration with its raw initial literal, or empty, and the text of its line. -/
structure FieldDecl where
  owner : String
  name : String
  type : String
  flags : List AccessFlag
  value : String
  number : Nat
  text : String
deriving DecidableEq, Repr, Inhabited

namespace FieldDecl

/-- The field without its type. -/
def key (f : FieldDecl) : String := f.owner ++ "->" ++ f.name

def isStatic (f : FieldDecl) : Bool := f.flags.contains .static

def isFinal (f : FieldDecl) : Bool := f.flags.contains .final

/-- The line of the declaration as messages show it. -/
def lineLabel (f : FieldDecl) : LineLabel := ⟨none, f.number, f.text⟩

end FieldDecl

/-- A class. -/
structure ClassDecl where
  name : String := ""
  superName : String := ""
  interfaces : List String := []
  flags : List AccessFlag := []
  source : String := ""
  path : String
  fields : Array FieldDecl := #[]
  methods : Array Method := #[]
deriving DecidableEq, Repr, Inhabited

namespace ClassDecl

/-- The index of the first method with the name and parameters. -/
def methodIndex? (c : ClassDecl) (name params : String) : Option Nat :=
  c.methods.findIdx? fun m => m.isNamed name params

/-- The index of the first field with the name. -/
def fieldIndex? (c : ClassDecl) (name : String) : Option Nat :=
  c.fields.findIdx? fun f => f.name = name

/-- The class name up to its last slash. -/
def package (c : ClassDecl) : String :=
  match Text.cutLast? '/' c.name.toList with
  | some (before, _) => String.ofList (before ++ ['/'])
  | none => ""

end ClassDecl

end SmaliTrace.ClassFile
