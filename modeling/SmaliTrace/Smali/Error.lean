import SmaliTrace.Text.Quoted

/-!
Why a line, a reference or a literal cannot be decoded.
-/
namespace SmaliTrace.Smali

/-- What is wrong with a piece of smali text. -/
inductive Flaw where
  | unlabelledEntry
  | malformedEntry
  | missingExceptionType
  | unknownCatch
  | missingTryRange
  | malformedTryRange
  | incompleteCatch
  | missingRegister
  | unknownOpcode (op : String)
  | operandCount (wanted found : Nat)
  | missingMethod
  | malformedRegisterList
  | malformedRegisterRange
  | emptyRegisterRange
  | oversizedRange
  | endlessRange
  | badRegister (register : String)
  | malformedField
  | malformedMethod
  | danglingArray
  | unterminatedClass
  | badDescriptor (c : Char)
  | notAnInteger
  | notAFloat
  | badCharacter
  | badString
  | emptyLiteral
deriving DecidableEq, Repr

/-- The character shown for the first byte of a descriptor; only ASCII characters are one byte. -/
def shownByte (c : Char) : Char := if c.toNat < 0x80 then c else '\ufffd'

/-- The wording of a flaw. -/
def Flaw.text : Flaw → String
  | .unlabelledEntry => "packed-switch entry is not a label"
  | .malformedEntry => "malformed sparse-switch entry"
  | .missingExceptionType => "missing exception type"
  | .unknownCatch => "unknown catch directive"
  | .missingTryRange => "missing try range"
  | .malformedTryRange => "malformed try range"
  | .incompleteCatch => "incomplete catch"
  | .missingRegister => "missing register"
  | .unknownOpcode op => "unknown opcode " ++ op
  | .operandCount wanted found =>
    "want " ++ toString wanted ++ " operands, got " ++ toString found
  | .missingMethod => "invoke without method"
  | .malformedRegisterList => "malformed register list"
  | .malformedRegisterRange => "malformed register range"
  | .emptyRegisterRange => "empty register range"
  | .oversizedRange => "no room for register range"
  | .endlessRange => "endless register range"
  | .badRegister register => "bad register " ++ register
  | .malformedField => "malformed field reference"
  | .malformedMethod => "malformed method reference"
  | .danglingArray => "dangling array descriptor"
  | .unterminatedClass => "unterminated class descriptor"
  | .badDescriptor c => "bad descriptor " ++ String.singleton (shownByte c)
  | .notAnInteger => "not an integer literal"
  | .notAFloat => "not a float literal"
  | .badCharacter => "bad character literal"
  | .badString => "bad string literal"
  | .emptyLiteral => "empty literal"

/-- The flaw is not reported: there is no coming back from a range that has no room or no end. -/
def Flaw.isFatal : Flaw → Bool
  | .oversizedRange | .endlessRange => true
  | _ => false

/-- A text that cannot be decoded, and why. -/
structure DecodeError where
  text : String
  flaw : Flaw
deriving DecidableEq, Repr

/-- The message of a decoding failure. -/
def DecodeError.message (e : DecodeError) : String :=
  "cannot decode " ++ Text.quote e.text ++ ": " ++ e.flaw.text

/-- A failure to decode the given text. -/
def fail {α : Type} (s : List Char) (flaw : Flaw) : Except DecodeError α :=
  .error ⟨String.ofList s, flaw⟩

end SmaliTrace.Smali
