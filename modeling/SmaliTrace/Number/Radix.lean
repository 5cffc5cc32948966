import SmaliTrace.Number.Double

/-!
Integers whose digits may be binary, octal or hexadecimal, as their first characters say, with
underscores between digits.
-/
namespace SmaliTrace.Number

/-- The value of a digit of the base. -/
def digitBelow? (base : Nat) (c : Char) : Option Nat :=
  (Text.hexValue? c).filter fun d => d < base

/-- The base that the start of the digits announces, with the digits after the announcement. A single
leading zero announces octal digits. -/
def splitRadix (s : List Char) : Nat × List Char :=
  match s with
  | '0' :: letter :: d :: rest =>
    match letter.toLower with
    | 'b' => (2, d :: rest)
    | 'o' => (8, d :: rest)
    | 'x' => (16, d :: rest)
    | _ => (8, letter :: d :: rest)
  | '0' :: rest => (8, rest)
  | s => (10, s)

/-- The text has a letter that announces a base. -/
def hasRadixLetter : List Char → Bool
  | '0' :: letter :: _ => letter.toLower = 'b' || letter.toLower = 'o' || letter.toLower = 'x'
  | _ => false

/-- Underscores stand between digits, or right behind the announcement of the base. -/
def underscoresFit (s : List Char) : Bool :=
  if hasRadixLetter s then
    let isDigit := if (s.drop 1).head?.map Char.toLower = some 'x'
      then fun c => (Text.hexValue? c).isSome
      else fun c => (decimalValue? c).isSome
    underscoresSeparate isDigit true false (s.drop 2)
  else underscoresSeparate (fun c => (decimalValue? c).isSome) false false s

/-- Reads the digits of an unsigned word in the base that they announce. -/
def readRadixMagnitude (s : List Char) : Except ReadError Nat :=
  if s.isEmpty then .error .malformed
  else
    let (base, digits) := splitRadix s
    match readDigits (digitBelow? base) base 0 (digits.filter (· ≠ '_')) with
    | .error e => .error e
    | .ok n => if s.contains '_' && !underscoresFit s then .error .malformed else .ok n

/-- Reads a signed word in the base that its digits announce. -/
def readRadix (s : List Char) : Except ReadError Int := do
  let (negative, digits) := splitSign s
  let n ← readRadixMagnitude digits
  if negative then
    if n ≤ 9223372036854775808 then .ok (-(n : Int)) else .error .outOfRange
  else if n < 9223372036854775808 then .ok n
  else .error .outOfRange

end SmaliTrace.Number
