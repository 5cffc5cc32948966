import SmaliTrace.Number.Word
import SmaliTrace.Smali.Error
import SmaliTrace.Text.Cut

/-!
Register operands: single registers, and the lists and ranges in braces that calls take.
-/
namespace SmaliTrace.Smali

/-- A register as it is written: `v` or `p` and a number. -/
abbrev Register := String

/-- Splits a register into its letter and number. -/
def splitRegister? : List Char → Option (Char × Int)
  | letter :: digits =>
    if letter = 'v' ∨ letter = 'p' then
      (Number.readSigned digits).toOption.map fun n => (letter, n)
    else none
  | [] => none

/-- The text names a register. -/
def isRegister (s : List Char) : Bool := (splitRegister? s).isSome

/-- The register with the given letter and number, in its usual spelling. -/
def register (letter : Char) (n : Int) : Register := String.singleton letter ++ toString n

/-- The most texts that a list can be given room for: each takes 16 bytes of 2 ^ 48. -/
def largestRoom : Int := 17592186044416

/-- The largest signed word. -/
def largestWord : Int := 9223372036854775807

/-- Adds the registers from number `i` to `high`. The counter is a word, so behind the largest one it would go on with the
least: a count up to there does not end. -/
def countUp (letter : Char) (high i : Int) (found : Array Register) : Option (Array Register) :=
  if i ≤ high then
    if high = largestWord then none else countUp letter high (i + 1) (found.push (register letter i))
  else some found
termination_by (high + 1 - i).toNat

/-- Expands the range between two registers of one letter. Their count, which is a word as well, says how much room they
are given. -/
def expandRange (line : List Char) (bounds : List (List Char)) :
    Except DecodeError (List Register) :=
  match bounds with
  | [first, last] =>
    match splitRegister? (Text.trim first), splitRegister? (Text.trim last) with
    | some (letter, low), some (letter', high) =>
      if letter ≠ letter' then fail line .malformedRegisterRange
      else if high < low then fail line .emptyRegisterRange
      else
        let room := Number.wrap (high - low + 1)
        if room < 0 ∨ largestRoom < room then fail line .oversizedRange
        else
          match countUp letter high low #[] with
          | some registers => .ok registers.toList
          | none => fail line .endlessRange
    | _, _ => fail line .malformedRegisterRange
  | _ => fail line .malformedRegisterRange

/-- Expands a list or range of registers in braces; `line` is the text that messages show. -/
def parseRegisterList (line s : List Char) : Except DecodeError (List Register) :=
  match s with
  | '\x7b' :: rest =>
    if Text.endsWith "\x7d" rest then
      let body := Text.trim rest.dropLast
      if body.isEmpty then .ok []
      else if Text.contains ".." body then expandRange line (Text.pieces "..".toList body)
      else .ok ((Text.pieces [','] body).map fun r => String.ofList (Text.trim r))
    else fail line .malformedRegisterList
  | _ => fail line .malformedRegisterList

end SmaliTrace.Smali
