import SmaliTrace.Number.Word

/-!
Double-precision numbers, as exact mantissas and binary exponents: rounding a positive fraction to the
nearest double, and reading decimal and hexadecimal notation.
-/
namespace SmaliTrace.Number

/-- A double: `finite neg m e` is `m · 2 ^ e` with the sign. A rounded number has `m < 2 ^ 53` and
`-1074 ≤ e`, with `2 ^ 52 ≤ m` unless `e` is least. -/
inductive Double where
  | finite (negative : Bool) (mantissa : Nat) (exponent : Int)
  | infinite (negative : Bool)
  | nan
deriving DecidableEq, Repr

/-- A positive fraction times a power of two, as numerator and denominator. -/
def scale (num den : Nat) (e : Int) : Nat × Nat :=
  if 0 ≤ e then (num * Nat.pow 2 e.toNat, den) else (num, den * Nat.pow 2 (-e).toNat)

/-- The quotient rounded to the nearest integer, a half going to the even neighbour. -/
def roundDiv (num den : Nat) : Nat :=
  let q := num / den
  let r := num % den
  if 2 * r < den then q else if den < 2 * r then q + 1 else if q % 2 = 0 then q else q + 1

/-- The binary exponent that gives a positive fraction a mantissa of 53 bits, or the least one. -/
def exponentFor (num den : Nat) : Int :=
  let guess : Int := (num.log2 : Int) - (den.log2 : Int) - 52
  let (n, d) := scale num den (-guess)
  let e := if n / d < Nat.pow 2 52 then guess - 1 else guess
  max e (-1074)

/-- The double nearest to a fraction, or `none` when it lies beyond the largest one. -/
def Double.round? (negative : Bool) (num den : Nat) : Option Double :=
  if num = 0 then some (.finite negative 0 (-1074))
  else
    let e := exponentFor num den
    let (n, d) := scale num den (-e)
    let m := roundDiv n d
    let (m, e) := if m = Nat.pow 2 53 then (Nat.pow 2 52, e + 1) else (m, e)
    if 971 < e then none else some (.finite negative m e)

/-- What a scan over the digits of a number has seen: the digits as one number, how many of them
stand after the point, and whether a point and a digit were seen. -/
structure Mantissa where
  value : Nat := 0
  places : Nat := 0
  point : Bool := false
  digits : Bool := false
  underscored : Bool := false
deriving Repr

/-- Scans digits with at most one point; underscores are noted and skipped. -/
def scanMantissa (digit? : Char → Option Nat) (base : Nat) (m : Mantissa) :
    List Char → Mantissa × List Char
  | [] => (m, [])
  | c :: rest =>
    if c = '_' then scanMantissa digit? base { m with underscored := true } rest
    else if c = '.' then
      if m.point then (m, c :: rest)
      else scanMantissa digit? base { m with point := true } rest
    else
      match digit? c with
      | none => (m, c :: rest)
      | some d =>
        let places := if m.point then m.places + 1 else m.places
        scanMantissa digit? base
          { m with value := m.value * base + d, places := places, digits := true } rest

/-- Scans the digits of an exponent, which stops growing at five digits. -/
def scanExponent (e : Nat) (underscored : Bool) : List Char → Nat × Bool × List Char
  | [] => (e, underscored, [])
  | c :: rest =>
    if c = '_' then scanExponent e true rest
    else
      match decimalValue? c with
      | none => (e, underscored, c :: rest)
      | some d => scanExponent (if e < 10000 then e * 10 + d else e) underscored rest

/-- Reads an exponent after its mark: an optional sign and at least one digit. -/
def readExponent? (s : List Char) : Option (Int × Bool × List Char) :=
  let (negative, digits) :=
    match s with
    | '+' :: rest => (false, rest)
    | '-' :: rest => (true, rest)
    | _ => (false, s)
  match digits with
  | [] => none
  | c :: _ =>
    if (decimalValue? c).isNone then none
    else
      let (e, underscored, rest) := scanExponent 0 false digits
      some (if negative then -(e : Int) else e, underscored, rest)

/-- Every underscore stands between two digits; `afterDigit` says what stands before the text. -/
def underscoresSeparate (isDigit : Char → Bool) : (afterDigit afterUnderscore : Bool) →
    List Char → Bool
  | _, afterUnderscore, [] => !afterUnderscore
  | afterDigit, afterUnderscore, c :: rest =>
    if isDigit c then underscoresSeparate isDigit true false rest
    else if c = '_' then afterDigit && underscoresSeparate isDigit false true rest
    else !afterUnderscore && underscoresSeparate isDigit false false rest

/-- The names of the infinities, in any case of letters. -/
def isInfinityName (s : List Char) : Bool :=
  let lower := s.map Char.toLower
  lower = "inf".toList || lower = "infinity".toList

/-- Splits one optional sign off. -/
def splitSign : List Char → Bool × List Char
  | '-' :: rest => (true, rest)
  | '+' :: rest => (false, rest)
  | s => (false, s)

/-- Reads an unsigned number in hexadecimal digits, after its `0x`; the exponent is required. -/
def readHexDouble? (negative : Bool) (s : List Char) : Option Double := do
  let (m, rest) := scanMantissa Text.hexValue? 16 {} s
  if !m.digits then none
  match rest with
  | mark :: rest =>
    if mark.toLower ≠ 'p' then none
    let (e, underscored, rest) ← readExponent? rest
    if !rest.isEmpty then none
    if m.underscored || underscored then
      if !underscoresSeparate (fun c => (Text.hexValue? c).isSome) true false s then none
    let (num, den) := scale m.value 1 (e - 4 * m.places)
    Double.round? negative num den
  | [] => none

/-- Reads an unsigned number in decimal digits. -/
def readDecimalDouble? (negative : Bool) (s : List Char) : Option Double := do
  let (m, rest) := scanMantissa decimalValue? 10 {} s
  if !m.digits then none
  let (e, underscored, rest) ←
    match rest with
    | [] => some (0, false, [])
    | mark :: after => if mark.toLower = 'e' then readExponent? after else some (0, false, rest)
  if !rest.isEmpty then none
  if m.underscored || underscored then
    if !underscoresSeparate (fun c => (decimalValue? c).isSome) false false s then none
  let e := e - m.places
  if 0 ≤ e then Double.round? negative (m.value * Nat.pow 10 e.toNat) 1
  else Double.round? negative m.value (Nat.pow 10 (-e).toNat)

/-- Reads a double: decimal or hexadecimal notation with an optional sign, or the name of a special
value. A number beyond the largest double is refused. -/
def readDouble? (s : List Char) : Option Double :=
  if s.map Char.toLower = "nan".toList then some .nan
  else
    let (negative, digits) := splitSign s
    if isInfinityName digits then some (.infinite negative)
    else
      match digits with
      | '0' :: x :: d :: rest =>
        if x = 'x' ∨ x = 'X' then readHexDouble? negative (d :: rest)
        else readDecimalDouble? negative digits
      | _ => readDecimalDouble? negative digits

end SmaliTrace.Number
