import SmaliTrace.Markdown.Character
import SmaliTrace.Markdown.Entity

/-!
Text in HTML: the characters that HTML writes in another way, and what backslashes and references to
characters in Markdown source stand for.
-/
namespace SmaliTrace.Markdown

/-- The writing of a character that means something else in HTML. -/
def escaped? : Char → Option String
  | '&' => some "&amp;"
  | '<' => some "&lt;"
  | '>' => some "&gt;"
  | '"' => some "&quot;"
  | _ => none

/-- A character that stands for itself in HTML. -/
def escapeChar (c : Char) : String := (escaped? c).getD c.toString

/-- A text that stands for itself in HTML. -/
def escape (s : List Char) : String := s.foldl (fun out c => out ++ escapeChar c) ""

/-- The character in place of one that does not exist. -/
def replacement : Char := '\ufffd'

/-- The character of a code point that a number refers to. -/
def charAt (n : Nat) : Char := if n = 0 || !n.isValidChar then replacement else Char.ofNat n

/-- The bound of the numbers that refer to characters; larger ones count as the number before it. -/
def numberBound : Nat := 0x100000000

/-- A character that a number refers to, in HTML. The numbers are words with a sign, and those below
256 are looked up by their last byte. -/
def numberedChar (n : Nat) : String :=
  let byte := escaped? (Char.ofNat (n % 256))
  if n < 256 || numberBound / 2 ≤ n then byte.getD (charAt n).toString else (charAt n).toString

/-- The most digits of a decimal number that refers to a character. -/
def maxDecimalDigits : Nat := 7

/-- The number that decimal digits denote. After a zero they are octal, and no number if one of them
is not. -/
def decimalReference (digits : List Char) : Nat :=
  if digits.head? = some '0' then (Text.digitsValue? Text.octalValue? 8 digits).getD 0
  else (Text.digitsValue? Text.hexValue? 10 digits).getD 0

/-- What the source after an ampersand refers to. -/
inductive Reference where
  | number (n : Nat)
  | name (characters : List Char)
deriving DecidableEq, Repr

/-- Reads a reference by number, after the ampersand and the number sign, and counts its
characters. -/
def numberReference? (s : List Char) : Option (Nat × Nat) :=
  match s with
  | [] => none
  | c :: rest =>
    if c = 'x' || c = 'X' then
      let digits := rest.takeWhile fun d => (Text.hexValue? d).isSome
      if digits.isEmpty || rest[digits.length]? ≠ some ';' then none
      else some (min (Text.hexNumber digits) (numberBound - 1), digits.length + 2)
    else
      let digits := s.takeWhile Char.isDigit
      if digits.isEmpty || maxDecimalDigits < digits.length || s[digits.length]? ≠ some ';' then none
      else some (decimalReference digits, digits.length + 1)

/-- Reads a reference by name, after the ampersand, and counts its characters. -/
def nameReference? (s : List Char) : Option (List Char × Nat) :=
  let name := s.takeWhile Char.isAlphanum
  if s[name.length]? ≠ some ';' then none
  else (entity? name).map fun characters => (characters, name.length + 1)

/-- Reads a reference after the ampersand, and counts its characters. -/
def reference? : List Char → Option (Reference × Nat)
  | '#' :: rest => (numberReference? rest).map fun (n, size) => (.number n, size + 1)
  | s => (nameReference? s).map fun (characters, size) => (.name characters, size)

/-- The referred characters in HTML. -/
def Reference.html : Reference → String
  | number n => numberedChar n
  | name characters => escape characters

/-- Writes source as text in HTML behind `out`. -/
def writeText (out : String) (s : List Char) : String :=
  match s with
  | [] => out
  | c :: rest =>
    if c = '\\' then
      match rest with
      | d :: after =>
        if isPunctuation d then writeText (out ++ escapeChar d) after
        else writeText (out.push c) (d :: after)
      | [] => out.push c
    else if c = '&' then
      match reference? rest with
      | some (r, size) => writeText (out ++ r.html) (rest.drop size)
      | none => writeText (out ++ escapeChar c) rest
    else writeText (out ++ escapeChar c) rest
termination_by s.length

/-- The source as text in HTML. -/
def text (s : List Char) : String := writeText "" s

/-- The source without the backslashes before punctuation. -/
def withoutBackslashes : List Char → List Char
  | [] => []
  | [c] => [c]
  | c :: d :: rest =>
    if c = '\\' && isPunctuation d then d :: withoutBackslashes rest
    else c :: withoutBackslashes (d :: rest)

/-- The source with the characters that `read?` refers to. -/
def resolve (read? : List Char → Option (List Char × Nat)) (s : List Char) : List Char :=
  match s with
  | [] => []
  | c :: rest =>
    if c = '&' then
      match read? rest with
      | some (characters, size) => characters ++ resolve read? (rest.drop size)
      | none => c :: resolve read? rest
    else c :: resolve read? rest
termination_by s.length

/-- Reads a reference by number after the ampersand as a character. -/
def numberedChar? : List Char → Option (List Char × Nat)
  | '#' :: rest => (numberReference? rest).map fun (n, size) => ([charAt n], size + 1)
  | _ => none

/-- The source with the backslashes and references replaced by what they stand for. Numbers come
before names, so that a number can refer to the ampersand of a name. -/
def resolved (s : List Char) : List Char :=
  resolve nameReference? (resolve numberedChar? (withoutBackslashes s))

end SmaliTrace.Markdown
