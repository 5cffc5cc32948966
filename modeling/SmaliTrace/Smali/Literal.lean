import SmaliTrace.Number.Shortest
import SmaliTrace.Smali.Error
import SmaliTrace.Text.Cut

/-!
Literal operands: integers, floating-point numbers, quoted strings and characters, and the one
normal form that equal values share.
-/
namespace SmaliTrace.Smali.Literal
open SmaliTrace.Text (Octets)

/-- Reads decimal or hexadecimal digits as an unsigned word. -/
def readMagnitude (s : List Char) : Except Number.ReadError Nat :=
  match s with
  | '0' :: 'x' :: digits => Number.readHex digits
  | '0' :: 'X' :: digits => Number.readHex digits
  | digits => Number.readUnsigned digits

/-- Reads an integer: a sign, decimal or hexadecimal digits and the size suffixes `t`, `s`, `L`. The
magnitude is an unsigned word, and the result wraps to a signed one. -/
def readInteger (s : List Char) : Except DecodeError Int :=
  let body := Text.dropEndWhile (fun c => c = 't' || c = 's' || c = 'L') s
  let negative := Text.startsWith "-" body
  match readMagnitude (Text.without "+" (Text.without "-" body)) with
  | .error _ => fail s .notAnInteger
  | .ok n => .ok (Number.wrap (if negative then -(n : Int) else n))

/-- Reads a floating-point number with its `f` or `d` suffixes, or a named special value. -/
def readFloat (s : List Char) : Except DecodeError Number.Double :=
  let body := Text.dropEndWhile (fun c => c = 'f' || c = 'F' || c = 'd' || c = 'D') s
  let name := Text.without "-" body
  if name = "Infinity".toList then .ok (.infinite (Text.startsWith "-" body))
  else if name = "NaN".toList then .ok .nan
  else
    match Number.readDouble? body with
    | some d => .ok d
    | none => fail s .notAFloat

/-- The inside of a text in single quotes. -/
def singleQuoted? : List Char → Option (List Char)
  | '\x27' :: rest => if Text.endsWith "\x27" rest then some rest.dropLast else none
  | _ => none

/-- Decodes a quoted literal. Between single quotes the first plain or escaped character counts. -/
def unquote (s : List Char) : Except DecodeError Octets :=
  match singleQuoted? s with
  | some inside =>
    match Text.readUnit? '\x27' inside with
    | some (unit, _) => .ok (Octets.ofString (String.singleton unit.char))
    | none => fail s .badCharacter
  | none =>
    match Text.unquoteText? s with
    | some v => .ok v
    | none => fail s .badString

/-- The literal is written like a floating-point number. -/
def looksFloat (s : List Char) : Bool :=
  (s.any (fun c => c = '.' || c = 'f' || c = 'F' || c = 'd' || c = 'D') && !Text.contains "0x" s) ||
    Text.contains "Infinity" s || Text.contains "NaN" s

/-- The normal form of a literal: quoted texts without their quotes, numbers in decimal. -/
def value (raw : String) : Except DecodeError Octets :=
  let s := raw.toList
  match s with
  | [] => fail s .emptyLiteral
  | c :: _ =>
    if c = '"' || c = '\x27' then unquote s
    else if raw = "true" || raw = "false" || raw = "null" then .ok (Octets.ofString raw)
    else if looksFloat s then (readFloat s).map fun d => Octets.ofString d.text
    else (readInteger s).map fun n => Octets.ofString (toString n)

/-- The literal is the integer zero. -/
def isZero (raw : String) : Bool := (readInteger raw.toList).toOption = some 0

end SmaliTrace.Smali.Literal
