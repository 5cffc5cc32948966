import SmaliTrace.ClassFile.Basic
import SmaliTrace.Smali.Instruction

/-!
Why a search stops before its worklist is empty.
-/
namespace SmaliTrace.Slice
open SmaliTrace.Smali SmaliTrace.ClassFile

/-- A violated assumption about the program. -/
inductive Surprise where
  | seedOutsideBlocks
  | returnWithoutValue
  | seedParameter (index : Int) (error : ArgumentError)
  | badSeed (kind : Kind)
  | returnInside (block : Nat)
  | noProducer
  | wrongProducer (kind : Kind)
  | siteParameter (index : Int) (method : String) (error : ArgumentError)
  | noParameter (error : ParameterError)
  | readWithoutResult
  | noPayloadLabel (label method : String)
  | notAPayload (label : String)
  | openPayload (label method : String)
deriving DecidableEq, Repr

/-- The wording of a violated assumption. -/
def Surprise.text : Surprise → String
  | .seedOutsideBlocks => "seed outside of any block"
  | .returnWithoutValue => "return without value"
  | .seedParameter index error => "parameter index " ++ toString index ++ ": " ++ error.message
  | .badSeed kind => "cannot seed at " ++ kind.name
  | .returnInside block => "return inside block " ++ toString block
  | .noProducer => "move-result without producer"
  | .wrongProducer kind => "move-result after " ++ kind.name
  | .siteParameter index method error =>
    "parameter " ++ toString index ++ " of " ++ method ++ ": " ++ error.message
  | .noParameter error => error.message
  | .readWithoutResult => "array read without result"
  | .noPayloadLabel label method => "payload label " ++ label ++ " not found in " ++ method
  | .notAPayload label => "label " ++ label ++ " does not point at a payload"
  | .openPayload label method => "unterminated payload " ++ label ++ " in " ++ method

/-- A violated assumption, at a line if there is one to blame. -/
structure LogicError where
  line : Option LineLabel
  surprise : Surprise
deriving DecidableEq, Repr

/-- The message of a violated assumption. -/
def LogicError.message (e : LogicError) : String :=
  match e.line with
  | some l => "logic error at " ++ l.show ++ ": " ++ e.surprise.text
  | none => "logic error: " ++ e.surprise.text

/-- An operand or constant of the wrong shape. -/
inductive Misshape where
  | literal (raw : String) (error : DecodeError)
  | mathLiteral (raw : String) (error : DecodeError)
  | arguments (error : ArgumentError)
  | initialValue (key : String) (error : DecodeError)
  | payload (error : LogicError)
  | element (raw : String) (error : DecodeError)
deriving DecidableEq, Repr

/-- The wording of a wrong shape. -/
def Misshape.text : Misshape → String
  | .literal raw error => "literal " ++ Text.quote raw ++ ": " ++ error.message
  | .mathLiteral raw error => "math literal " ++ Text.quote raw ++ ": " ++ error.message
  | .arguments error => error.message
  | .initialValue key error => "initial value of " ++ key ++ ": " ++ error.message
  | .payload error => error.message
  | .element raw error => "array element " ++ Text.quote raw ++ ": " ++ error.message

/-- Why a search stops: it meets something misshapen or surprising, or it reaches a limit. -/
inductive Fault where
  | misshapen (line : LineLabel) (shape : Misshape)
  | logic (error : LogicError)
  | iterationLimit (limit : Int)
  | searchLimit (limit : Int)
deriving DecidableEq, Repr

namespace Fault

/-- The search was cut short by a limit. -/
def isLimit : Fault → Bool
  | iterationLimit _ | searchLimit _ => true
  | _ => false

/-- The message of a fault. -/
def message : Fault → String
  | misshapen line shape => "syntax error at " ++ line.show ++ ": " ++ shape.text
  | logic error => error.message
  | iterationLimit limit => "iteration limit " ++ toString limit ++ " exceeded"
  | searchLimit limit => "completed search limit " ++ toString limit ++ " exceeded"

end Fault

end SmaliTrace.Slice
