import SmaliTrace.Slice.Graph
import SmaliTrace.Text.Octets
import SmaliTrace.Text.Quoted

/-!
Constants: the terminal values of a slice. A search keeps one for each line, with the lowest fuzzy
level it was found at.
-/
namespace SmaliTrace.Slice
open SmaliTrace.ClassFile (LineLabel)
open SmaliTrace.Text (Octets)

/-- What a terminal value is: written in the program, or a placeholder for one that is not known. A
code without a name of its own stands for any further kind. -/
inductive ConstantKind where
  | array
  | externalMethod
  | fieldConstant
  | internalOpcode
  | localAnonymous
  | localVariable
  | nativeMethod
  | mathConstant
  | uncalledMethod
  | unnamed (code : Nat)
deriving DecidableEq, Repr, Inhabited

namespace ConstantKind

/-- The named kinds, in order. -/
def all : List ConstantKind :=
  [array, externalMethod, fieldConstant, internalOpcode, localAnonymous, localVariable,
    nativeMethod, mathConstant, uncalledMethod]

/-- The position of a kind in the order. -/
def code : ConstantKind → Nat
  | unnamed code => code
  | kind => all.idxOf kind

/-- The kind at a position. -/
def ofCode (code : Nat) : ConstantKind := all[code]?.getD (unnamed code)

/-- The name of a kind. -/
def name : ConstantKind → String
  | array => "array"
  | externalMethod => "external-method-result"
  | fieldConstant => "field-constant"
  | internalOpcode => "internal-opcode"
  | localAnonymous => "local-anonymous-constant"
  | localVariable => "local-variable"
  | nativeMethod => "native-method-result"
  | mathConstant => "math-opcode-constant"
  | uncalledMethod => "uncalled-method"
  | unnamed code => "ConstantKind(" ++ toString code ++ ")"

/-- The value is written in the program. -/
def isLiteral : ConstantKind → Bool
  | array | fieldConstant | localAnonymous | localVariable | mathConstant => true
  | _ => false

end ConstantKind

/-- A terminal value of a search. -/
structure Constant where
  kind : ConstantKind
  value : Octets
  raw : String
  fuzzy : Int
  search : Int
  line : LineId
  node : NodeId
deriving DecidableEq, Repr, Inhabited

/-- The constant as messages show it. -/
def Constant.show (c : Constant) (label : LineLabel) : String :=
  c.kind.name ++ " " ++ c.value.quote ++ " (fuzzy " ++ toString c.fuzzy ++ ") at " ++ label.show

/-- Adds a constant to those of a search. One on the same line is kept instead, with the lower fuzzy
level; the result tells whether the constant is new. -/
def addConstant (constants : Array Constant) (c : Constant) : Array Constant × Bool :=
  match constants.findIdx? fun k => k.line = c.line with
  | some i => (constants.modify i fun k => { k with fuzzy := min k.fuzzy c.fuzzy }, false)
  | none => (constants.push c, true)

/-- An integer with zeros in front, eight characters wide with its sign. -/
def paddedNumber (n : Int) : String :=
  let digits := toString n.natAbs
  let sign := if n < 0 then "-" else ""
  sign ++ String.ofList (List.replicate (8 - digits.length - sign.length) '0') ++ digits

/-- The text that lines are sorted by; field declarations come last. -/
def sortKey (l : LineLabel) : String :=
  match l.method with
  | some m => m ++ ":" ++ paddedNumber l.number
  | none => "~" ++ paddedNumber l.number

/-- The order of constants: by search, then line, then kind. -/
def constantLe (label : LineId → LineLabel) (a b : Constant) : Bool :=
  if a.search ≠ b.search then decide (a.search < b.search)
  else
    let ka := sortKey (label a.line)
    let kb := sortKey (label b.line)
    if ka ≠ kb then decide (ka < kb) else decide (a.kind.code ≤ b.kind.code)

/-- The constants in order; equals keep theirs. -/
def sortConstants (label : LineId → LineLabel) (cs : List Constant) : List Constant :=
  cs.mergeSort (constantLe label)

end SmaliTrace.Slice
