import SmaliTrace.Number.Double

/-!
Doubles as text: the fewest digits that read back as the same double, nearest to it among those of
that length; exponents below -4 or from 6 on are written out.
-/
namespace SmaliTrace.Number

/-- The decimal `digits · 10 ^ exponent`. -/
structure Decimal where
  digits : Nat
  exponent : Int
deriving DecidableEq, Repr

/-- A positive fraction times a power of ten, as numerator and denominator. -/
def scaleTen (num den : Nat) (e : Int) : Nat × Nat :=
  if 0 ≤ e then (num * Nat.pow 10 e.toNat, den) else (num, den * Nat.pow 10 (-e).toNat)

/-- `d · 10 ^ k` rounds to `m · 2 ^ e`: it lies between the midpoints to the neighbours of that double,
ends included when `m` is even. The lower midpoint is nearer when `m` is the least mantissa of its
exponent. -/
def roundsTo (m : Nat) (e : Int) (d : Nat) (k : Int) : Bool :=
  let (num, den) := scaleTen d 1 k
  -- everything is compared in units of a quarter of `2 ^ e`
  let (n, q) := scale num den (2 - e)
  let low := if m = Nat.pow 2 52 ∧ -1074 < e then 4 * m - 1 else 4 * m - 2
  let high := 4 * m + 2
  if m % 2 = 0 then low * q ≤ n && n ≤ high * q else low * q < n && n < high * q

/-- The distance of `d · 10 ^ k` from `m · 2 ^ e`, over a denominator that depends on `e` and `k`
only. -/
def distance (m : Nat) (e : Int) (d : Nat) (k : Int) : Nat :=
  let (a, b) := scale m 1 e
  let (num, den) := scaleTen d 1 k
  let x := a * den
  let y := num * b
  if x ≤ y then y - x else x - y

/-- The number of decimal digits of a positive number. -/
def digitCount (n : Nat) : Nat := (Nat.toDigits 10 n).length

/-- The exponent of the leading decimal digit of `m · 2 ^ e`. -/
def leadingExponent (m : Nat) (e : Int) : Int :=
  let (num, den) := scale m 1 e
  if den ≤ num then (digitCount (num / den) : Int) - 1
  else
    -- the least `j` with `num · 10 ^ j` at least `den`
    let j := digitCount (den / num)
    if den ≤ num * Nat.pow 10 (j - 1) then -((j : Int) - 1) else -(j : Int)

/-- The decimal of at most `count` digits nearest to `m · 2 ^ e`, if one of that length reads back. -/
def candidate? (m : Nat) (e : Int) (count : Nat) : Option Decimal :=
  let k := leadingExponent m e - (count : Int) + 1
  let (a, b) := scale m 1 e
  let (num, den) := scaleTen a b (-k)
  let below := num / den
  let near := [below, below + 1].filter fun d => roundsTo m e d k
  match near with
  | [] => none
  | [d] => some ⟨d, k⟩
  | d :: d' :: _ =>
    let u := distance m e d k
    let v := distance m e d' k
    some ⟨if u < v ∨ (u = v ∧ d % 2 = 0) then d else d', k⟩

/-- The shortest decimal that reads back as the positive double `m · 2 ^ e`. -/
def shortest (m : Nat) (e : Int) : Decimal :=
  ((List.range 18).firstM fun n => candidate? m e (n + 1)).getD ⟨0, 0⟩

/-- Drops the zeros at the end of the digits. -/
def Decimal.normalize (d : Decimal) : Decimal :=
  let digits := Nat.toDigits 10 d.digits
  let kept := (digits.reverse.dropWhile (· = '0')).reverse
  ⟨kept.foldl (fun n c => n * 10 + (c.toNat - 48)) 0, d.exponent + ((digits.length - kept.length : Nat) : Int)⟩

/-- A decimal exponent with its sign and at least two digits. -/
def exponentText (e : Int) : String :=
  let digits := toString e.natAbs
  "e" ++ (if e < 0 then "-" else "+") ++ (if digits.length < 2 then "0" ++ digits else digits)

/-- A decimal in positional notation, or with an exponent when it leads below `10 ^ -4` or from
`10 ^ 6` on. -/
def Decimal.text (d : Decimal) : String :=
  let d := d.normalize
  let digits := Nat.toDigits 10 d.digits
  let lead := d.exponent + (digits.length : Int) - 1
  if lead < -4 ∨ 6 ≤ lead then
    match digits with
    | [c] => String.ofList [c] ++ exponentText lead
    | c :: rest => String.ofList (c :: '.' :: rest) ++ exponentText lead
    | [] => ""
  else if 0 ≤ d.exponent then String.ofList (digits ++ List.replicate d.exponent.toNat '0')
  else if 0 ≤ lead then
    String.ofList (digits.take (lead.toNat + 1) ++ '.' :: digits.drop (lead.toNat + 1))
  else String.ofList ("0.".toList ++ List.replicate ((-lead).toNat - 1) '0' ++ digits)

/-- The text of a double. -/
def Double.text : Double → String
  | .nan => "NaN"
  | .infinite negative => if negative then "-Inf" else "+Inf"
  | .finite negative m e =>
    (if negative then "-" else "") ++ (if m = 0 then "0" else (shortest m e).text)

end SmaliTrace.Number
