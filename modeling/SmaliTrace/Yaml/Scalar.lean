import SmaliTrace.Text.Digit
import SmaliTrace.Yaml.Source

/-!
Scalars of a YAML text: plain and quoted ones, whose line breaks are folded, and block scalars, whose
lines are indented.
-/
namespace SmaliTrace.Yaml

/-- The text of a scalar, last character first, and the gap behind it: blanks, or line breaks. `first`
is the first of the breaks, unless it is escaped, and `further` are those behind it, last first. -/
structure Folding where
  text : List Char := []
  blanks : List Char := []
  broken : Bool := false
  first : Option Char := none
  further : List Char := []
deriving DecidableEq, Repr, Inhabited

namespace Folding

/-- Adds a blank to the gap; blanks next to line breaks are dropped. -/
def blank (f : Folding) (c : Char) : Folding :=
  if f.broken then f else { f with blanks := c :: f.blanks }

/-- Adds a line break to the gap. -/
def lineBreak (f : Folding) (c : Char) : Folding :=
  if f.broken then { f with further := c :: f.further }
  else { f with blanks := [], broken := true, first := some c }

/-- The gap as it is read, last character first: a line feed between two lines is a space, and one
before empty lines is dropped. -/
def gap (f : Folding) : List Char :=
  if f.broken then
    match f.first with
    | some '\n' => if f.further.isEmpty then [' '] else f.further
    | some c => f.further ++ [c]
    | none => f.further
  else f.blanks

/-- Takes the gap into the text. -/
def close (f : Folding) : Folding := { text := f.gap ++ f.text }

/-- Takes the gap and a character into the text. -/
def push (f : Folding) (c : Char) : Folding := { text := c :: (f.gap ++ f.text) }

/-- Starts a gap with an escaped line break. -/
def escapedBreak (f : Folding) : Folding := { f.close with broken := true }

/-- There is a gap. -/
def hasGap (f : Folding) : Bool := f.broken || !f.blanks.isEmpty

/-- The text without the gap. -/
def result (f : Folding) : String := String.ofList f.text.reverse

end Folding

/-- Characters that end a plain scalar between flow brackets. -/
def isFlowMark (c : Char) : Bool :=
  c = ',' || c = '?' || c = '[' || c = ']' || c = '\x7b' || c = '\x7d'

/-- The plain scalar ends before a character, which is no blank or break. -/
def endsPlain (flow : Bool) (indent : Int) (f : Folding) (column : Nat) (c : Char)
    (rest : List Char) : Bool :=
  (c = ':' && atGap rest) || (flow && isFlowMark c) ||
    (f.hasGap && (c = '#' || (!flow && column < indent) ||
      (column = 0 && atDocumentMark (c :: rest))))

/-- Reads a plain scalar on, up to its end and the gap behind it. Its lines are indented to the column
`indent` at least, outside of flow brackets. -/
def plain (flow : Bool) (indent : Int) (f : Folding) (m : Mark) :
    List Char → Option (Lexeme Folding)
  | [] => some ⟨f, m, []⟩
  | c :: rest =>
    if isBlank c then
      if c = '\t' && f.broken && m.column < indent then none
      else plain flow indent (f.blank c) m.right rest
    else if isBreak c then plain flow indent (f.lineBreak c) m.newLine rest
    else if endsPlain flow indent f m.column c rest then some ⟨f, m, c :: rest⟩
    else plain flow indent (f.push c) m.right rest

/-- The characters of the escapes of one letter. -/
def escapeLetters : List (Char × Char) := [
  ('0', '\x00'), ('a', '\x07'), ('b', '\x08'), ('t', '\t'), ('\t', '\t'), ('n', '\n'), ('v', '\x0b'),
  ('f', '\x0c'), ('r', '\r'), ('e', '\x1b'), (' ', ' '), ('"', '"'), ('\x27', '\x27'),
  ('\\', '\\'), ('N', '\u0085'), ('_', '\u00a0'), ('L', '\u2028'), ('P', '\u2029')]

/-- The number of hexadecimal digits that an escape letter asks for. -/
def escapeWidth? : Char → Option Nat
  | 'x' => some 2
  | 'u' => some 4
  | 'U' => some 8
  | _ => none

/-- The character of hexadecimal digits. -/
def hexChar? (width : Nat) (s : List Char) : Option Char :=
  if s.length < width then none
  else
    match Text.digitsValue? Text.hexValue? 16 (s.take width) with
    | some code => if code.isValidChar then some (Char.ofNat code) else none
    | none => none

/-- The character of an escape, and the number of characters behind the backslash. -/
def escape? : List Char → Option (Char × Nat)
  | [] => none
  | letter :: digits =>
    match escapeLetters.lookup letter, escapeWidth? letter with
    | some c, _ => some (c, 1)
    | none, some width => (hexChar? width digits).map (·, width + 1)
    | none, none => none

/-- Reads a scalar in quotes on, after its opening quote. Only double quotes have escapes; a single
quote is written twice. -/
def quoted (single : Bool) (f : Folding) (m : Mark) (s : List Char) : Option (Lexeme String) :=
  match s with
  | [] => none
  | c :: rest =>
    if m.column = 0 && atDocumentMark (c :: rest) then none
    else if isBlank c then quoted single (f.blank c) m.right rest
    else if isBreak c then quoted single (f.lineBreak c) m.newLine rest
    else if single && c = '\x27' then
      match rest with
      | '\x27' :: rest => quoted single (f.push '\x27') (m.right 2) rest
      | rest => some ⟨f.close.result, m.right, rest⟩
    else if !single && c = '"' then some ⟨f.close.result, m.right, rest⟩
    else if !single && c = '\\' then
      match rest with
      | [] => none
      | d :: after =>
        if isBreak d then quoted single f.escapedBreak m.right.newLine after
        else
          match escape? (d :: after) with
          | some (e, width) => quoted single (f.push e) (m.right (width + 1)) ((d :: after).drop width)
          | none => none
    else quoted single (f.push c) m.right rest
termination_by s.length
decreasing_by all_goals (simp_all; try omega)

/-- What becomes of the line breaks at the end of a block scalar. -/
inductive Chomping where
  | clip
  | strip
  | keep
deriving DecidableEq, Repr, Inhabited

/-- The chomping that a character asks for. -/
def Chomping.ofChar? : Char → Option Chomping
  | '+' => some .keep
  | '-' => some .strip
  | _ => none

/-- A block scalar: its text, last character first, and the line breaks behind it, the first one apart.
`indent` is the column of its lines, or zero as long as it is not known; it is at least `least`, and
`widest` is the widest indentation so far. `spaced` tells of a line that starts with a blank. -/
structure Block where
  literal : Bool
  indent : Nat
  least : Nat
  widest : Nat := 0
  text : List Char := []
  first : Option Char := none
  further : List Char := []
  inLine : Bool := false
  spaced : Bool := false
deriving DecidableEq, Repr, Inhabited

namespace Block

/-- The indentation, once a line is found. -/
def settle (b : Block) : Block :=
  if b.indent = 0 then { b with indent := max (max b.widest b.least) 1 } else b

/-- Starts a line with its first character. A folded line feed is a space, or nothing if empty lines
follow, unless a line next to it starts with a blank. -/
def startLine (b : Block) (c : Char) : Block :=
  let folds := !b.literal && !b.spaced && !isBlank c && b.first = some '\n'
  let between := if folds then if b.further.isEmpty then [' '] else [] else b.first.toList
  { b with text := c :: (b.further ++ between ++ b.text), first := none, further := [],
           inLine := true, spaced := isBlank c }

/-- The text with what is kept of the line breaks behind it. -/
def result (b : Block) (chomping : Chomping) : String :=
  let tail :=
    match chomping with
    | .strip => []
    | .clip => b.first.toList
    | .keep => b.further ++ b.first.toList
  String.ofList (tail ++ b.text).reverse

end Block

/-- Reads the lines of a block scalar. -/
def blockLines (b : Block) (m : Mark) : List Char → Option (Lexeme Block)
  | [] => some ⟨b, m, []⟩
  | c :: rest =>
    if b.inLine then
      if isBreak c then blockLines { b with inLine := false, first := some c } m.newLine rest
      else blockLines { b with text := c :: b.text } m.right rest
    else
      let inside := b.indent = 0 || m.column < b.indent
      if inside && c = ' ' then blockLines b m.right rest
      else if inside && c = '\t' then none
      else
        let b := { b with widest := max b.widest m.column }
        if isBreak c then blockLines { b with further := c :: b.further } m.newLine rest
        else if m.column = b.settle.indent then blockLines (b.settle.startLine c) m.right rest
        else some ⟨b.settle, m, c :: rest⟩

/-- The digits of an indentation. -/
def indentation? (c : Char) : Option Nat := if c.isDigit then some (c.toNat - 48) else none

/-- Reads the signs behind the mark of a block scalar: the chomping, and the indentation or zero if
there is none. -/
def blockSigns? (m : Mark) : List Char → Option (Lexeme (Chomping × Nat))
  | [] => some ⟨(.clip, 0), m, []⟩
  | c :: rest =>
    match Chomping.ofChar? c, indentation? c with
    | some chomping, _ =>
      match rest with
      | [] => some ⟨(chomping, 0), m.right, []⟩
      | d :: after =>
        match indentation? d with
        | some 0 => none
        | some n => some ⟨(chomping, n), m.right 2, after⟩
        | none => some ⟨(chomping, 0), m.right, d :: after⟩
    | none, some 0 => none
    | none, some n =>
      match rest with
      | [] => some ⟨(.clip, n), m.right, []⟩
      | d :: after =>
        match Chomping.ofChar? d with
        | some chomping => some ⟨(chomping, n), m.right 2, after⟩
        | none => some ⟨(.clip, n), m.right, d :: after⟩
    | none, none => some ⟨(.clip, 0), m, c :: rest⟩

/-- Reads a block scalar, after its mark, inside a collection in the column `indent`. -/
def blockScalar (literal : Bool) (indent : Int) (m : Mark) (s : List Char) :
    Option (Lexeme String) := do
  let ⟨(chomping, increment), m, s⟩ ← blockSigns? m s
  let (m, s) ← passLine? m s
  let width := if increment = 0 then 0 else indent.toNat + increment
  let lines ← blockLines { literal := literal, indent := width, least := (indent + 1).toNat } m s
  pure ⟨lines.value.result chomping, lines.mark, lines.rest⟩

end SmaliTrace.Yaml
