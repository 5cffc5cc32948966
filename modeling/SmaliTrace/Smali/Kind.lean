import SmaliTrace.Text.Cut

/-!
The families of body lines: six kinds of metadata and the executable instruction families, and the
family that an opcode mnemonic belongs to.
-/
namespace SmaliTrace.Smali

/-- The family of a decoded line, metadata first. -/
inductive Kind where
  | directive
  | label
  | handler
  | dataStart
  | data
  | dataEnd
  | nop
  | move
  | moveResult
  | moveException
  | ret
  | const
  | monitor
  | checkCast
  | instanceOf
  | arrayLength
  | newInstance
  | newArray
  | filledNewArray
  | fillArrayData
  | throw
  | goto
  | switch
  | branch
  | compare
  | arrayGet
  | arrayPut
  | instanceGet
  | instancePut
  | staticGet
  | staticPut
  | invoke
  | unaryMath
  | binaryMath
deriving DecidableEq, Repr, Inhabited

namespace Kind

/-- All kinds, in order. -/
def all : List Kind :=
  [directive, label, handler, dataStart, data, dataEnd, nop, move, moveResult, moveException, ret,
    const, monitor, checkCast, instanceOf, arrayLength, newInstance, newArray, filledNewArray,
    fillArrayData, throw, goto, switch, branch, compare, arrayGet, arrayPut, instanceGet,
    instancePut, staticGet, staticPut, invoke, unaryMath, binaryMath]

/-- The name of a kind in messages. -/
def name : Kind → String
  | directive => "directive"
  | label => "label"
  | handler => "catch"
  | dataStart => "data-start"
  | data => "data"
  | dataEnd => "data-end"
  | nop => "nop"
  | move => "move"
  | moveResult => "move-result"
  | moveException => "move-exception"
  | ret => "return"
  | const => "const"
  | monitor => "monitor"
  | checkCast => "check-cast"
  | instanceOf => "instance-of"
  | arrayLength => "array-length"
  | newInstance => "new-instance"
  | newArray => "new-array"
  | filledNewArray => "filled-new-array"
  | fillArrayData => "fill-array-data"
  | throw => "throw"
  | goto => "goto"
  | switch => "switch"
  | branch => "if"
  | compare => "compare"
  | arrayGet => "array-get"
  | arrayPut => "array-put"
  | instanceGet => "instance-get"
  | instancePut => "instance-put"
  | staticGet => "static-get"
  | staticPut => "static-put"
  | invoke => "invoke"
  | unaryMath => "unary-math"
  | binaryMath => "binary-math"

/-- Lines of this kind are executed; the others are metadata. -/
def executable : Kind → Bool
  | directive | label | handler | dataStart | data | dataEnd => false
  | _ => true

/-- Control never falls through a line of this kind to the next one. -/
def endsBlock : Kind → Bool
  | ret | throw | goto => true
  | _ => false

/-- The kind at a position of `all`. -/
def ofCode? (code : Int) : Option Kind := if code < 0 then none else all[code.toNat]?

/-- The name at a position of `all`, for any number. -/
def nameOfCode (code : Int) : String := ((ofCode? code).map name).getD "unknown"

end Kind

/-- The mnemonics that belong to a family by their whole name. -/
def wholeMnemonics : List (String × Kind) := [
  ("nop", .nop), ("move-exception", .moveException), ("monitor-enter", .monitor),
  ("monitor-exit", .monitor), ("check-cast", .checkCast), ("instance-of", .instanceOf),
  ("array-length", .arrayLength), ("new-instance", .newInstance), ("new-array", .newArray),
  ("filled-new-array", .filledNewArray), ("filled-new-array/range", .filledNewArray),
  ("fill-array-data", .fillArrayData), ("throw", .throw), ("goto", .goto), ("goto/16", .goto),
  ("goto/32", .goto), ("packed-switch", .switch), ("sparse-switch", .switch),
  ("cmpl-float", .compare), ("cmpg-float", .compare), ("cmpl-double", .compare),
  ("cmpg-double", .compare), ("cmp-long", .compare)]

/-- The beginnings of mnemonics that decide the family of all others, in the order they are tried. -/
def mnemonicStems : List (String × Kind) := [
  ("move-result", .moveResult), ("move", .move), ("return", .ret), ("const", .const),
  ("if-", .branch), ("aget", .arrayGet), ("aput", .arrayPut), ("iget", .instanceGet),
  ("iput", .instancePut), ("sget", .staticGet), ("sput", .staticPut), ("invoke-", .invoke),
  ("neg-", .unaryMath), ("not-", .unaryMath)]

/-- The beginnings of the mnemonics of binary arithmetic. -/
def arithmeticStems : List String :=
  ["add-", "sub-", "rsub-", "mul-", "div-", "rem-", "and-", "or-", "xor-", "shl-", "shr-", "ushr-"]

/-- The family of an opcode mnemonic, if it is one. -/
def classify? (op : List Char) : Option Kind :=
  match wholeMnemonics.find? fun (name, _) => name.toList = op with
  | some (_, kind) => some kind
  | none =>
    match mnemonicStems.find? fun (stem, _) => Text.startsWith stem op with
    | some (_, kind) => some kind
    | none =>
      if Text.contains "-to-" op then some .unaryMath
      else if arithmeticStems.any fun stem => Text.startsWith stem op then some .binaryMath
      else none

end SmaliTrace.Smali
