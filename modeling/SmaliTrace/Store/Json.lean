import SmaliTrace.Store.Record
import SmaliTrace.Text.Digit
import SmaliTrace.Text.Octets

/-!
Records as JSON texts: an object with the fields in their order, of which some are left out when they are empty. What is
written can be read back; other texts need not be.
-/
namespace SmaliTrace.Store.Json

/-! ### Writing -/

/-- The characters that are written by a backslash and a letter. -/
def shortEscape? (c : Char) : Option Char :=
  if c = '"' || c = '\\' then some c
  else if c = '\n' then some 'n'
  else if c = '\r' then some 'r'
  else if c = '\t' then some 't'
  else none

/-- The characters that are written by their codes: the other controls, those with a meaning in HTML, and the two
separators that end a line in scripts. -/
def isCoded (c : Char) : Bool :=
  c.toNat < 0x20 || c = '<' || c = '>' || c = '&' || c.toNat = 0x2028 || c.toNat = 0x2029

/-- A character inside of quotes. -/
def escape (c : Char) : List Char :=
  match shortEscape? c with
  | some letter => ['\\', letter]
  | none => if isCoded c then '\\' :: 'u' :: Text.hexDigits 4 c.toNat else [c]

/-- A text. -/
def string (s : String) : List Char := '"' :: s.toList.flatMap escape ++ ['"']

/-- An integer. -/
def int (n : Int) : List Char := (toString n).toList

/-- A truth value. -/
def bool (b : Bool) : List Char := if b then "true".toList else "false".toList

/-- The items of a list behind the first, each behind a comma, and the closing bracket. -/
def itemsAfter {α : Type} (item : α → List Char) (as : List α) : List Char :=
  as.flatMap (fun a => ',' :: item a) ++ [']']

/-- A list. -/
def list {α : Type} (item : α → List Char) : List α → List Char
  | [] => ['[', ']']
  | a :: as => '[' :: item a ++ itemsAfter item as

/-- A list that can be absent. -/
def nullable {α : Type} (item : α → List Char) : Option (List α) → List Char
  | none => "null".toList
  | some as => list item as

/-- A field that is left out when its list is empty, behind others. -/
def unlessEmpty {α : Type} (name : String) (item : α → List Char) (as : List α) : List Char :=
  if as.isEmpty then [] else name.toList ++ list item as

/-- A stored constant. -/
def constant (c : ConstantRecord) : List Char :=
  "\x7b\"search\":".toList ++ int c.search ++ ",\"kind\":".toList ++ string c.kind ++ ",\"value\":".toList ++
    string c.value ++ ",\"raw\":".toList ++ string c.raw ++ ",\"fuzzy\":".toList ++ int c.fuzzy ++
    ",\"line\":".toList ++ string c.line ++ "\x7d".toList

/-- A stored finding. -/
def finding (f : FindingRecord) : List Char :=
  "\x7b\"file\":".toList ++ string f.file ++ ",\"line\":".toList ++ int f.line ++ ",\"kind\":".toList ++ string f.kind ++
    ",\"value\":".toList ++ string f.value ++ ",\"trace\":".toList ++ nullable string f.trace ++ "\x7d".toList

/-- A point in time, or a word for one that is not known. -/
def time : Option Timestamp → List Char
  | some t => string t.text
  | none => string "now"

/-- A record. -/
def record (r : Record) : List Char :=
  "\x7b\"rule\":".toList ++ string r.rule ++ ",\"pattern\":".toList ++ string r.pattern ++ ",\"backward\":".toList ++
    bool r.backward ++ ",\"seeds\":".toList ++ int r.seeds ++ unlessEmpty ",\"aborted\":" string r.aborted ++
    unlessEmpty ",\"errors\":" string r.errors ++ ",\"constants\":".toList ++ nullable constant r.constants ++
    unlessEmpty ",\"findings\":" finding r.findings ++ ",\"saved\":".toList ++ time r.saved ++ "\x7d".toList

/-! ### Reading -/

/-- Reads from the start of a text. -/
abbrev Reader := StateT (List Char) Option

/-- Takes this text if it comes next, and tells whether it does. -/
def takes (text : String) : Reader Bool := do
  match text.toList.isPrefixOf? (← get) with
  | some rest =>
    set rest
    pure true
  | none => pure false

/-- Takes exactly this text. -/
def expect (text : String) : Reader Unit := do
  if ← takes text then pure () else failure

/-- The characters up to the closing quote, and the text behind it. -/
def charsOf : List Char → Option (List Char × List Char)
  | [] => none
  | '"' :: rest => some ([], rest)
  | '\\' :: 'u' :: a :: b :: c :: d :: rest => do
    let code ← Text.digitsValue? Text.hexValue? 16 [a, b, c, d]
    let (chars, rest) ← charsOf rest
    some (Char.ofNat code :: chars, rest)
  | '\\' :: letter :: rest => do
    let (chars, rest) ← charsOf rest
    let char := if letter = 'n' then '\n' else if letter = 'r' then '\r' else if letter = 't' then '\t' else letter
    some (char :: chars, rest)
  | c :: rest => do
    let (chars, rest) ← charsOf rest
    some (c :: chars, rest)

/-- Takes a text. -/
def readString : Reader String := do
  expect "\""
  let (chars, rest) ← StateT.lift (charsOf (← get))
  set rest
  pure (String.ofList chars)

/-- Takes the digits of a number. -/
def readNat : Reader Nat := do
  let s ← get
  set (s.dropWhile Char.isDigit)
  StateT.lift (Text.digitsValue? Number.decimalValue? 10 (s.takeWhile Char.isDigit))

/-- Takes an integer. -/
def readInt : Reader Int := do
  match ← get with
  | '-' :: rest =>
    set rest
    return -(← readNat)
  | _ => return ← readNat

/-- Takes a truth value. -/
def readBool : Reader Bool := do
  if ← takes "true" then pure true
  else
    expect "false"
    pure false

/-- Takes the items of a list behind the first, at most so many, up to the closing bracket. -/
def readItemsAfter {α : Type} (item : Reader α) : Nat → Reader (List α)
  | 0 => failure
  | n + 1 => do
    match ← get with
    | ',' :: rest =>
      set rest
      let a ← item
      return a :: (← readItemsAfter item n)
    | _ =>
      expect "]"
      pure []

/-- Takes a list. There are not more items than characters. -/
def readList {α : Type} (item : Reader α) : Reader (List α) := do
  expect "["
  match ← get with
  | ']' :: rest =>
    set rest
    pure []
  | s =>
    let a ← item
    return a :: (← readItemsAfter item s.length)

/-- Takes a list that can be absent. -/
def readNullable {α : Type} (item : Reader α) : Reader (Option (List α)) := do
  if ← takes "null" then pure none else return some (← readList item)

/-- Takes a field that can be left out. -/
def readUnlessEmpty {α : Type} (name : String) (item : Reader α) : Reader (List α) := do
  if ← takes name then readList item else pure []

/-- Takes a stored constant. -/
def readConstant : Reader ConstantRecord := do
  expect "\x7b\"search\":"
  let search ← readInt
  expect ",\"kind\":"
  let kind ← readString
  expect ",\"value\":"
  let value ← readString
  expect ",\"raw\":"
  let raw ← readString
  expect ",\"fuzzy\":"
  let fuzzy ← readInt
  expect ",\"line\":"
  let line ← readString
  expect "\x7d"
  pure { search, kind, value, raw, fuzzy, line }

/-- Takes a stored finding. -/
def readFinding : Reader FindingRecord := do
  expect "\x7b\"file\":"
  let file ← readString
  expect ",\"line\":"
  let line ← readInt
  expect ",\"kind\":"
  let kind ← readString
  expect ",\"value\":"
  let value ← readString
  expect ",\"trace\":"
  let trace ← readNullable readString
  expect "\x7d"
  pure { file, line, kind, value, trace }

/-- Takes a point in time. -/
def readTime : Reader (Option Timestamp) := do
  let text ← readString
  if text = "now" then pure none else return some (← StateT.lift (Timestamp.read? text))

/-- Takes a record. -/
def readRecord : Reader Record := do
  expect "\x7b\"rule\":"
  let rule ← readString
  expect ",\"pattern\":"
  let pattern ← readString
  expect ",\"backward\":"
  let backward ← readBool
  expect ",\"seeds\":"
  let seeds ← readInt
  let aborted ← readUnlessEmpty ",\"aborted\":" readString
  let errors ← readUnlessEmpty ",\"errors\":" readString
  expect ",\"constants\":"
  let constants ← readNullable readConstant
  let findings ← readUnlessEmpty ",\"findings\":" readFinding
  expect ",\"saved\":"
  let saved ← readTime
  expect "\x7d"
  pure { rule, pattern, backward, seeds, aborted, errors, constants, findings, saved }

end SmaliTrace.Store.Json

namespace SmaliTrace.Store

/-- Why a record cannot be written. -/
inductive EncodeFault where
  | year
  | zone
deriving DecidableEq, Repr

/-- The wording of a fault. -/
def EncodeFault.text : EncodeFault → String
  | .year => "year outside of range [0,9999]"
  | .zone => "timezone hour outside of range [0,23]"

/-- Why a time cannot be written, if it cannot. The year comes first. -/
def EncodeFault.of? (t : Timestamp) : Option EncodeFault :=
  if t.year < 0 || 9999 < t.year then some .year
  else if 24 * 60 ≤ t.offset.natAbs then some .zone
  else none

/-- The bytes of a record. -/
def Record.encode (r : Record) : Except EncodeFault Text.Octets :=
  match r.saved.bind EncodeFault.of? with
  | some fault => .error fault
  | none => .ok (String.ofList (Json.record r))

/-- The record that the bytes hold. -/
def Record.decode (data : Text.Octets) : Except String Record :=
  match Json.readRecord.run data.toText.toList with
  | some (r, []) => .ok r
  | _ => .error "invalid character in record"

end SmaliTrace.Store
