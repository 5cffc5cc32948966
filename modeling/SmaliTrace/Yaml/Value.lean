import SmaliTrace.Number.Radix
import SmaliTrace.Text.Base64
import SmaliTrace.Timestamp

/-!
What the scalars of a YAML document stand for: nothing, truth values, numbers, times and texts.
-/
namespace SmaliTrace.Yaml

/-- What a scalar stands for. -/
inductive Value where
  | null
  | bool (b : Bool)
  | int (n : Int)
  | double (d : Number.Double)
  | time
  | text (s : String)
deriving DecidableEq, Repr

/-- The tag of a kind of values. -/
def standardTag (kind : String) : String := "tag:yaml.org,2002:" ++ kind

/-- The plain scalars for nothing. -/
def nullWords : List String := ["", "~", "null", "Null", "NULL"]

/-- The plain scalars for truth values. -/
def booleanWords : List (String × Bool) :=
  (["y", "Y", "yes", "Yes", "YES", "true", "True", "TRUE", "on", "On", "ON"].map (·, true)) ++
    (["n", "N", "no", "No", "NO", "false", "False", "FALSE", "off", "Off", "OFF"].map (·, false))

/-- The plain scalars for special numbers. -/
def numberWords : List (String × Number.Double) :=
  ([".nan", ".NaN", ".NAN"].map (·, .nan)) ++
    ([".inf", ".Inf", ".INF", "+.inf", "+.Inf", "+.INF"].map (·, .infinite false)) ++
    (["-.inf", "-.Inf", "-.INF"].map (·, .infinite true))

/-- What a word stands for. -/
def wordValue? (s : String) : Option Value :=
  if nullWords.contains s then some .null
  else
    match booleanWords.lookup s, numberWords.lookup s with
    | some b, _ => some (.bool b)
    | none, some d => some (.double d)
    | none, none => none

/-- The text is empty or an exponent. -/
def endsFloat : List Char → Bool
  | [] => true
  | mark :: rest =>
    let (_, digits) := Number.splitSign rest
    mark.toLower = 'e' && !digits.isEmpty && digits.all Char.isDigit

/-- The text is written as a floating-point number: digits with at most one point, then an exponent or
nothing. -/
def looksFloat (s : List Char) : Bool :=
  let (_, body) := Number.splitSign s
  match body.takeWhile Char.isDigit, body.dropWhile Char.isDigit with
  | [], '.' :: rest =>
    !(rest.takeWhile Char.isDigit).isEmpty && endsFloat (rest.dropWhile Char.isDigit)
  | _ :: _, '.' :: rest => endsFloat (rest.dropWhile Char.isDigit)
  | whole, rest => !whole.isEmpty && endsFloat rest

/-- Reads binary digits whose sign stands behind their announcement. -/
def signedBinary? : List Char → Option Int
  | '0' :: 'b' :: s =>
    let (negative, digits) := Number.splitSign s
    if digits.isEmpty then none
    else
      match Number.readDigits (Number.digitBelow? 2) 2 0 digits with
      | .ok n =>
        if negative then if n ≤ 9223372036854775808 then some (-(n : Int)) else none
        else if n < 9223372036854775808 then some n
        else none
      | .error _ => none
  | _ => none

/-- What a text that starts with a digit or sign stands for, if it is a number. Underscores in it do
not count. -/
def numberValue? (s : List Char) : Option Value :=
  let s := s.filter (· ≠ '_')
  match Number.readRadix s, Number.readRadixMagnitude s with
  | .ok n, _ => some (.int n)
  | .error _, .ok n => some (.int n)
  | .error _, .error _ =>
    let double := if looksFloat s then Number.readDouble? s else none
    match double with
    | some d => some (.double d)
    | none => (signedBinary? s).map .int

/-- The text is a time: a date, or a date and a time of day. -/
def isTime (s : String) : Bool := (Timestamp.readShort? s).isSome

/-- What a plain scalar stands for. Times are recognized where `timed` holds. -/
def plainValue (timed : Bool) (s : String) : Value :=
  match s.toList with
  | [] => .null
  | c :: rest =>
    let number :=
      if c.isDigit || c = '+' || c = '-' then
        if timed && isTime s then some .time else numberValue? (c :: rest)
      else if c = '.' then (Number.readDouble? (c :: rest)).map .double
      else none
    match wordValue? s, number with
    | some v, _ => v
    | none, some v => v
    | none, none => .text s

/-- What a scalar with a tag stands for. The tag of a kind of values asks for a value of that kind,
where integers are numbers with a point too; all others leave the text as it is. -/
def taggedValue? (tag s : String) : Option Value :=
  if tag = standardTag "str" then some (.text s)
  else if tag = standardTag "binary" then (Text.base64? s).map fun v => .text v.toText
  else if tag = standardTag "bool" then
    match plainValue false s with
    | .bool b => some (.bool b)
    | _ => none
  else if tag = standardTag "int" then
    match plainValue false s with
    | .int n => some (.int n)
    | _ => none
  else if tag = standardTag "float" then
    match plainValue false s with
    | .double d => some (.double d)
    | .int n =>
      if n < 9223372036854775808 then (Number.Double.round? (n < 0) n.natAbs 1).map .double else none
    | _ => none
  else if tag = standardTag "null" then
    match plainValue false s with
    | .null => some .null
    | _ => none
  else if tag = standardTag "timestamp" then
    match plainValue true s with
    | .time => some .time
    | _ => none
  else some (.text s)

/-- What a scalar stands for. -/
def scalarValue? (tag : String) (implicit : Bool) (s : String) : Option Value :=
  if tag ≠ "" then taggedValue? tag s
  else if implicit then some (plainValue true s)
  else some (.text s)

/-- The word next to a number on the side of zero. A number above all words has none, but the least
number above them counts as the least word, and so do those below all words. -/
def wordOfDouble? : Number.Double → Option Int
  | .finite negative m e =>
    let (num, den) := Number.scale m 1 e
    if negative then some (max (-(num / den : Nat)) (-9223372036854775808))
    else if num / den < 9223372036854775808 then some (num / den : Nat)
    else if num = den * 9223372036854775808 then some (-9223372036854775808)
    else none
  | .infinite true => some (-9223372036854775808)
  | _ => none

end SmaliTrace.Yaml
