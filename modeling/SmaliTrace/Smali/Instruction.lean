import SmaliTrace.Smali.Kind
import SmaliTrace.Smali.Reference
import SmaliTrace.Smali.Register

/-!
Decoded body lines: what each line does, the registers it reads and defines, and how the registers of
a call fill the parameters of its callee.
-/
namespace SmaliTrace.Smali

/-- The range of a `.catch` or `.catchall`: the handled type, empty for all, and three labels. -/
structure CatchRange where
  type : String
  start : String
  stop : String
  handler : String
deriving DecidableEq, Repr, Inhabited

/-- What a body line does, with its operands. Destinations come first. -/
inductive Operation where
  | directive
  | localName (register : Register)
  | label (name : String)
  | handler (range : CatchRange)
  | dataStart (argument : String)
  | data (literal label : String)
  | dataEnd
  | nop
  | move (dst src : Register)
  | moveResult (dst : Register)
  | moveException (dst : Register)
  | returnVoid
  | returnValue (src : Register)
  | constLiteral (dst : Register) (literal : String)
  | constClass (dst : Register) (type : String)
  | monitor (object : Register)
  | checkCast (object : Register) (type : String)
  | instanceOf (dst object : Register) (type : String)
  | arrayLength (dst array : Register)
  | newInstance (dst : Register) (type : String)
  | newArray (dst size : Register) (type : String)
  | filledNewArray (elements : List Register) (type : String)
  | fillArrayData (array : Register) (label : String)
  | throw (exception : Register)
  | goto (label : String)
  | switch (value : Register) (label : String)
  | ifZero (value : Register) (label : String)
  | ifCompare (left right : Register) (label : String)
  | compare (dst left right : Register)
  | arrayGet (dst array index : Register)
  | arrayPut (src array index : Register)
  | instanceGet (dst object : Register) (field : FieldRef)
  | instancePut (src object : Register) (field : FieldRef)
  | staticGet (dst : Register) (field : FieldRef)
  | staticPut (src : Register) (field : FieldRef)
  | invoke (arguments : List Register) (method : MethodRef)
  | unaryMath (dst src : Register)
  | literalMath (dst src : Register) (literal : String)
  | inPlaceMath (dst src : Register)
  | binaryMath (dst left right : Register)
deriving DecidableEq, Repr, Inhabited

namespace Operation

/-- The family of an operation. -/
def kind : Operation → Kind
  | directive | localName _ => .directive
  | label _ => .label
  | handler _ => .handler
  | dataStart _ => .dataStart
  | data _ _ => .data
  | dataEnd => .dataEnd
  | nop => .nop
  | move _ _ => .move
  | moveResult _ => .moveResult
  | moveException _ => .moveException
  | returnVoid | returnValue _ => .ret
  | constLiteral _ _ | constClass _ _ => .const
  | monitor _ => .monitor
  | checkCast _ _ => .checkCast
  | instanceOf _ _ _ => .instanceOf
  | arrayLength _ _ => .arrayLength
  | newInstance _ _ => .newInstance
  | newArray _ _ _ => .newArray
  | filledNewArray _ _ => .filledNewArray
  | fillArrayData _ _ => .fillArrayData
  | throw _ => .throw
  | goto _ => .goto
  | switch _ _ => .switch
  | ifZero _ _ | ifCompare _ _ _ => .branch
  | compare _ _ _ => .compare
  | arrayGet _ _ _ => .arrayGet
  | arrayPut _ _ _ => .arrayPut
  | instanceGet _ _ _ => .instanceGet
  | instancePut _ _ _ => .instancePut
  | staticGet _ _ => .staticGet
  | staticPut _ _ => .staticPut
  | invoke _ _ => .invoke
  | unaryMath _ _ => .unaryMath
  | literalMath _ _ _ | inPlaceMath _ _ | binaryMath _ _ _ => .binaryMath

/-- The register operands, in the order they are written. -/
def registers : Operation → List Register
  | localName r | moveResult r | moveException r | returnValue r | constLiteral r _ |
    constClass r _ | monitor r | checkCast r _ | newInstance r _ | fillArrayData r _ | throw r |
    switch r _ | ifZero r _ | staticGet r _ | staticPut r _ => [r]
  | move a b | instanceOf a b _ | arrayLength a b | newArray a b _ | ifCompare a b _ |
    instanceGet a b _ | instancePut a b _ | unaryMath a b | literalMath a b _ |
    inPlaceMath a b => [a, b]
  | compare a b c | arrayGet a b c | arrayPut a b c | binaryMath a b c => [a, b, c]
  | filledNewArray rs _ | invoke rs _ => rs
  | directive | label _ | handler _ | dataStart _ | data _ _ | dataEnd | nop | returnVoid |
    goto _ => []

/-- The operation with every register operand replaced. -/
def mapRegisters (f : Register → Register) : Operation → Operation
  | localName r => .localName (f r)
  | move a b => .move (f a) (f b)
  | moveResult r => .moveResult (f r)
  | moveException r => .moveException (f r)
  | returnValue r => .returnValue (f r)
  | constLiteral r x => .constLiteral (f r) x
  | constClass r t => .constClass (f r) t
  | monitor r => .monitor (f r)
  | checkCast r t => .checkCast (f r) t
  | instanceOf a b t => .instanceOf (f a) (f b) t
  | arrayLength a b => .arrayLength (f a) (f b)
  | newInstance r t => .newInstance (f r) t
  | newArray a b t => .newArray (f a) (f b) t
  | filledNewArray rs t => .filledNewArray (rs.map f) t
  | fillArrayData r l => .fillArrayData (f r) l
  | throw r => .throw (f r)
  | switch r l => .switch (f r) l
  | ifZero r l => .ifZero (f r) l
  | ifCompare a b l => .ifCompare (f a) (f b) l
  | compare a b c => .compare (f a) (f b) (f c)
  | arrayGet a b c => .arrayGet (f a) (f b) (f c)
  | arrayPut a b c => .arrayPut (f a) (f b) (f c)
  | instanceGet a b x => .instanceGet (f a) (f b) x
  | instancePut a b x => .instancePut (f a) (f b) x
  | staticGet r x => .staticGet (f r) x
  | staticPut r x => .staticPut (f r) x
  | invoke rs m => .invoke (rs.map f) m
  | unaryMath a b => .unaryMath (f a) (f b)
  | literalMath a b x => .literalMath (f a) (f b) x
  | inPlaceMath a b => .inPlaceMath (f a) (f b)
  | binaryMath a b c => .binaryMath (f a) (f b) (f c)
  | op => op

theorem registers_mapRegisters (f : Register → Register) (op : Operation) :
    (op.mapRegisters f).registers = op.registers.map f := by
  cases op <;> rfl

/-- The register that the operation defines. -/
def result? : Operation → Option Register
  | move d _ | moveResult d | moveException d | constLiteral d _ | constClass d _ |
    instanceOf d _ _ | arrayLength d _ | newInstance d _ | newArray d _ _ | compare d _ _ |
    arrayGet d _ _ | instanceGet d _ _ | staticGet d _ | unaryMath d _ | literalMath d _ _ |
    inPlaceMath d _ | binaryMath d _ _ => some d
  | _ => none

/-- The registers whose values flow into the result. -/
def sources : Operation → List Register
  | move _ s | unaryMath _ s | instanceOf _ s _ | arrayLength _ s | arrayGet _ s _ |
    literalMath _ s _ => [s]
  | compare _ a b | binaryMath _ a b => [a, b]
  | inPlaceMath d s => [d, s]
  | _ => []

/-- The registers that the operation reads. -/
def reads : Operation → List Register
  | returnValue r | monitor r | checkCast r _ | fillArrayData r _ | throw r | switch r _ |
    ifZero r _ | staticPut r _ | instanceGet _ r _ | newArray _ r _ => [r]
  | ifCompare a b _ | instancePut a b _ | arrayGet _ a b => [a, b]
  | arrayPut a b c => [a, b, c]
  | filledNewArray rs _ | invoke rs _ => rs
  | op => op.sources

/-- The operation reads the register. -/
def uses (op : Operation) (r : Register) : Bool := op.reads.contains r

/-- The operation defines the register. -/
def defines (op : Operation) (r : Register) : Bool := op.result? = some r

/-- The label that the line names or jumps to, or empty. -/
def labelName : Operation → String
  | label l | data _ l | fillArrayData _ l | goto l | switch _ l | ifZero _ l |
    ifCompare _ _ l => l
  | _ => ""

/-- The literal operand, or empty. -/
def literal : Operation → String
  | dataStart x | data x _ | constLiteral _ x | literalMath _ _ x => x
  | _ => ""

/-- The type operand, or empty. -/
def type : Operation → String
  | constClass _ t | checkCast _ t | instanceOf _ _ t | newInstance _ t | newArray _ _ t |
    filledNewArray _ t => t
  | _ => ""

/-- The field operand. -/
def field? : Operation → Option FieldRef
  | instanceGet _ _ f | instancePut _ _ f | staticGet _ f | staticPut _ f => some f
  | _ => none

/-- The method operand. -/
def method? : Operation → Option MethodRef
  | invoke _ m => some m
  | _ => none

/-- The register that a `.local` names, or empty. -/
def localRegister : Operation → Register
  | localName r => r
  | _ => ""

end Operation

/-- One decoded body line: its first word, what it does, and its text without comment. -/
structure Instruction where
  op : String
  operation : Operation
  text : String
deriving DecidableEq, Repr, Inhabited

namespace Instruction

/-- The family of the line. -/
def kind (i : Instruction) : Kind := i.operation.kind

/-- The opcode works on register pairs. -/
def isWide (i : Instruction) : Bool := Text.contains "-wide" i.op.toList

/-- A call that passes no receiver. -/
def isStaticInvoke (i : Instruction) : Bool :=
  i.kind = .invoke && Text.startsWith "invoke-static" i.op.toList

/-- Arithmetic with a literal operand. -/
def isLiteralMath (i : Instruction) : Bool :=
  match i.operation with
  | .literalMath _ _ _ => true
  | _ => false

end Instruction

/-- One actual argument of a call: the parameter index, -1 for the receiver, with its register and
type. -/
structure Argument where
  index : Int
  register : Register
  type : String
deriving DecidableEq, Repr, Inhabited

/-- Why a call gives no arguments, or not the one asked for. -/
inductive ArgumentError where
  | notACall (text : String)
  | missingReceiver (text : String)
  | tooFewRegisters (text : String) (registers parameters : Nat)
  | noArgument (text : String) (index : Int)
deriving DecidableEq, Repr

/-- The message of an argument error. -/
def ArgumentError.message : ArgumentError → String
  | .notACall text => Text.quote text ++ " is not an invoke"
  | .missingReceiver text => Text.quote text ++ ": missing receiver"
  | .tooFewRegisters text registers parameters =>
    Text.quote text ++ ": " ++ toString registers ++ " registers for " ++ toString parameters ++
      " parameters"
  | .noArgument text index => Text.quote text ++ " has no argument " ++ toString index

/-- Gives the parameter types, the first of them number `index`, their registers in order; a wide
value takes two registers, of which the first counts. -/
def assign (index : Nat) : List String → List Register → Option (List Argument)
  | [], _ => some []
  | _ :: _, [] => none
  | type :: types, r :: rest =>
    (assign (index + 1) types (rest.drop (slotSize type - 1))).map (⟨index, r, type⟩ :: ·)

/-- The arguments of a call, the receiver first unless the call is static. -/
def Instruction.arguments (i : Instruction) : Except ArgumentError (List Argument) :=
  match i.operation with
  | .invoke registers method =>
    let tooFew := .tooFewRegisters i.text registers.length method.params.length
    if i.isStaticInvoke then
      ((assign 0 method.params registers).map .ok).getD (.error tooFew)
    else
      match registers with
      | [] => .error (.missingReceiver i.text)
      | receiver :: rest =>
        ((assign 0 method.params rest).map fun arguments =>
          .ok (⟨-1, receiver, method.owner⟩ :: arguments)).getD (.error tooFew)
  | _ => .error (.notACall i.text)

/-- The register that carries the parameter with the given index, -1 for the receiver. -/
def Instruction.argument (i : Instruction) (index : Int) : Except ArgumentError Register := do
  let arguments ← i.arguments
  match arguments.find? fun a => a.index = index with
  | some a => .ok a.register
  | none => .error (.noArgument i.text index)

end SmaliTrace.Smali
