import SmaliTrace.Text.Quoted

/-!
Machine words: reading 64-bit integers, and the wrap-around of signed arithmetic.
-/
namespace SmaliTrace.Number

/-- Two to the sixty-fourth: the number of words. -/
def wordCount : Nat := 18446744073709551616

/-- The signed word that an integer becomes in 64-bit arithmetic. -/
def wrap (n : Int) : Int := n.bmod wordCount

theorem wrap_eq {n : Int} (low : -9223372036854775808 ≤ n) (high : n < 9223372036854775808) :
    wrap n = n := by
  unfold wrap wordCount
  rw [Int.bmod_def]
  omega

/-- A sum wraps around once, however often its parts did. -/
theorem wrap_wrap_add (m n : Int) : wrap (wrap m + n) = wrap (m + n) := by
  unfold wrap
  exact Int.bmod_add_bmod

/-- Why a text denotes no word. -/
inductive ReadError where
  | malformed
  | outOfRange
deriving DecidableEq, Repr

/-- The wording of the two ways to fail. -/
def ReadError.text : ReadError → String
  | .malformed => "invalid syntax"
  | .outOfRange => "value out of range"

/-- The value of a decimal digit. -/
def decimalValue? (c : Char) : Option Nat :=
  if 48 ≤ c.toNat ∧ c.toNat ≤ 57 then some (c.toNat - 48) else none

/-- Extends the number read so far by the digits; the first fault from the left decides. -/
def readDigits (digit? : Char → Option Nat) (base : Nat) : Nat → List Char → Except ReadError Nat
  | n, [] => .ok n
  | n, c :: rest =>
    match digit? c with
    | none => .error .malformed
    | some d =>
      if n * base + d < wordCount then readDigits digit? base (n * base + d) rest
      else .error .outOfRange

/-- Reads an unsigned word in decimal digits. -/
def readUnsigned (s : List Char) : Except ReadError Nat :=
  if s.isEmpty then .error .malformed else readDigits decimalValue? 10 0 s

/-- Reads an unsigned word in hexadecimal digits of either case. -/
def readHex (s : List Char) : Except ReadError Nat :=
  if s.isEmpty then .error .malformed else readDigits Text.hexValue? 16 0 s

/-- Reads a signed word: one optional sign and decimal digits. -/
def readSigned (s : List Char) : Except ReadError Int := do
  match s with
  | '-' :: digits =>
    let n ← readUnsigned digits
    if n ≤ 9223372036854775808 then .ok (-(n : Int)) else .error .outOfRange
  | '+' :: digits => readMagnitude digits
  | digits => readMagnitude digits
where
  readMagnitude (digits : List Char) : Except ReadError Int := do
    let n ← readUnsigned digits
    if n < 9223372036854775808 then .ok n else .error .outOfRange

/-- The signed word a text denotes. -/
def signed? (s : String) : Option Int := (readSigned s.toList).toOption

end SmaliTrace.Number
