import SmaliTrace.Regex.Property
import SmaliTrace.Regex.Size
import SmaliTrace.Text.Cut

/-!
Reading regular expressions. A text is first cut into tokens, which are then grouped; flags take
effect when the tokens are grouped, up to the end of the group they are set in.
-/
namespace SmaliTrace.Regex

/-- What is wrong with the text of an expression. -/
inductive SyntaxFlaw where
  | trailingBackslash
  | badEscape
  | missingBracket
  | badRange
  | badGroup
  | badGroupName
  | missingParen
  | unexpectedParen
  | missingArgument
  | nestedRepeat
  | repeatSize
  | tooLarge
  | tooDeep
deriving DecidableEq, Repr

/-- The wording of a flaw. -/
def SyntaxFlaw.text : SyntaxFlaw → String
  | .trailingBackslash => "trailing backslash at end of expression"
  | .badEscape => "invalid escape sequence"
  | .missingBracket => "missing closing ]"
  | .badRange => "invalid character class range"
  | .badGroup => "invalid or unsupported Perl syntax"
  | .badGroupName => "invalid named capture"
  | .missingParen => "missing closing )"
  | .unexpectedParen => "unexpected )"
  | .missingArgument => "missing argument to repetition operator"
  | .nestedRepeat => "invalid nested repetition operator"
  | .repeatSize => "invalid repeat count"
  | .tooLarge => "expression too large"
  | .tooDeep => "expression nests too deeply"

/-- How the rest of an expression is read: letters match in any case, `^` and `$` match at lines, and
the dot matches newlines. -/
structure Flags where
  fold : Bool := false
  lines : Bool := false
  dotAll : Bool := false
deriving DecidableEq, Repr, Inhabited

/-- Flag letters to set, then letters to clear. -/
structure FlagChange where
  on : List Char := []
  off : List Char := []
deriving DecidableEq, Repr, Inhabited

/-- The flags after a change. -/
def FlagChange.apply (f : FlagChange) (flags : Flags) : Flags :=
  let set (letter : Char) (old : Bool) : Bool := (old || f.on.contains letter) && !f.off.contains letter
  { fold := set 'i' flags.fold, lines := set 'm' flags.lines, dotAll := set 's' flags.dotAll }

/-- A part of an expression's text. -/
inductive Token where
  | code (c : Nat)
  | quoted (cs : List Char)
  | dot
  | caret
  | dollar
  | anchor (a : Anchor)
  | set (s : CharSet)
  | times (min : Nat) (max : Option Nat)
  | setFlags (f : FlagChange)
  | openGroup (f : FlagChange) (captures : Bool)
  | closeGroup
  | bar
deriving DecidableEq, Repr, Inhabited

/-- A token with the text after it. -/
abbrev Read (α : Type) := Except SyntaxFlaw (α × List Char)

/-- Reads hexadecimal digits up to a closing brace, at least one. -/
def readBraced (n : Nat) (any : Bool) : List Char → Read Nat
  | [] => .error .badEscape
  | c :: rest =>
    if c = '\x7d' then if any then .ok (n, rest) else .error .badEscape
    else
      match Text.hexValue? c with
      | none => .error .badEscape
      | some v =>
        if 0x10ffff < n * 16 + v then .error .badEscape else readBraced (n * 16 + v) true rest

/-- Reads at most `count` further octal digits. -/
def readOctal (n : Nat) : (count : Nat) → List Char → Nat × List Char
  | 0, s => (n, s)
  | _ + 1, [] => (n, [])
  | count + 1, c :: rest =>
    match Text.octalValue? c with
    | some v => readOctal (n * 8 + v) count rest
    | none => (n, c :: rest)

/-- Reads an escape that stands for one code point; the backslash is read already. -/
def readEscape : List Char → Read Nat
  | [] => .error .trailingBackslash
  | 'a' :: rest => .ok (0x07, rest)
  | 'f' :: rest => .ok (0x0c, rest)
  | 'n' :: rest => .ok (0x0a, rest)
  | 'r' :: rest => .ok (0x0d, rest)
  | 't' :: rest => .ok (0x09, rest)
  | 'v' :: rest => .ok (0x0b, rest)
  | 'x' :: '\x7b' :: rest => readBraced 0 false rest
  | 'x' :: a :: b :: rest =>
    match Text.hexValue? a, Text.hexValue? b with
    | some x, some y => .ok (x * 16 + y, rest)
    | _, _ => .error .badEscape
  | c :: rest =>
    match Text.octalValue? c with
    | some v =>
      if c = '0' || ((rest.head?.bind Text.octalValue?).isSome) then .ok (readOctal v 2 rest)
      else .error .badEscape
    | none =>
      if c.toNat < 0x80 && !c.isAlphanum then .ok (c.toNat, rest) else .error .badEscape

/-- The intervals of the digits, the blanks and the word characters. -/
def perlClass? (c : Char) : Option (List (Nat × Nat)) :=
  match c with
  | 'd' => some [(0x30, 0x39)]
  | 's' => some [(0x09, 0x0a), (0x0c, 0x0d), (0x20, 0x20)]
  | 'w' => some [(0x30, 0x39), (0x41, 0x5a), (0x5f, 0x5f), (0x61, 0x7a)]
  | _ => none

/-- The class that a letter after a backslash names; a capital letter names the others. -/
def escapedClass? (c : Char) : Option CharItem :=
  match perlClass? c, perlClass? c.toLower with
  | some ranges, _ => some ⟨ranges, false⟩
  | none, some ranges => some ⟨ranges, true⟩
  | none, none => none

/-- The classes that have names inside brackets. -/
def namedClasses : List (String × List (Nat × Nat)) := [
  ("alnum", [(0x30, 0x39), (0x41, 0x5a), (0x61, 0x7a)]),
  ("alpha", [(0x41, 0x5a), (0x61, 0x7a)]),
  ("ascii", [(0x00, 0x7f)]),
  ("blank", [(0x09, 0x09), (0x20, 0x20)]),
  ("cntrl", [(0x00, 0x1f), (0x7f, 0x7f)]),
  ("digit", [(0x30, 0x39)]),
  ("graph", [(0x21, 0x7e)]),
  ("lower", [(0x61, 0x7a)]),
  ("print", [(0x20, 0x7e)]),
  ("punct", [(0x21, 0x2f), (0x3a, 0x40), (0x5b, 0x60), (0x7b, 0x7e)]),
  ("space", [(0x09, 0x0d), (0x20, 0x20)]),
  ("upper", [(0x41, 0x5a)]),
  ("word", [(0x30, 0x39), (0x41, 0x5a), (0x5f, 0x5f), (0x61, 0x7a)]),
  ("xdigit", [(0x30, 0x39), (0x41, 0x46), (0x61, 0x66)])]

/-- The class with the name; a caret before the name gives the others. -/
def namedClass? (name : List Char) : Option CharItem :=
  let (negated, name) :=
    match name with
    | '^' :: name => (true, name)
    | name => (false, name)
  (namedClasses.find? fun (n, _) => n.toList = name).map fun (_, ranges) => ⟨ranges, negated⟩

/-- The class with the property name; a caret before the name gives the others. -/
def property (negated : Bool) (name rest : List Char) : Read CharItem :=
  let (negated, name) :=
    match name with
    | '^' :: name => (!negated, name)
    | name => (negated, name)
  match propertyClass? name with
  | some ranges => .ok (⟨ranges, negated⟩, rest)
  | none => .error .badRange

/-- Reads the name of a property: one letter, or a name between braces. -/
def readProperty (negated : Bool) : List Char → Read CharItem
  | [] => .error .badRange
  | '\x7b' :: rest =>
    match Text.cut? ['\x7d'] rest with
    | some (name, rest) => property negated name rest
    | none => .error .badRange
  | c :: rest => property negated [c] rest

/-- Reads one code point inside brackets. -/
def readClassChar : List Char → Read Nat
  | [] => .error .missingBracket
  | '\\' :: rest => readEscape rest
  | c :: rest => .ok (c.toNat, rest)

/-- Reads a code point or an interval inside brackets. -/
def readInterval (s : List Char) : Except SyntaxFlaw (CharItem × List Char) := do
  let (low, rest) ← readClassChar s
  match rest with
  | '-' :: c :: rest =>
    if c = ']' then .ok (⟨[(low, low)], false⟩, '-' :: c :: rest)
    else
      let (high, rest) ← readClassChar (c :: rest)
      if high < low then .error .badRange else .ok (⟨[(low, high)], false⟩, rest)
  | rest => .ok (⟨[(low, low)], false⟩, rest)

/-- Reads one item inside brackets. -/
def readItem (s : List Char) : Read CharItem :=
  match s with
  | '[' :: ':' :: rest =>
    match Text.cut? ":]".toList rest with
    | some (name, after) =>
      match namedClass? name with
      | some item => .ok (item, after)
      | none => .error .badRange
    | none => readInterval s
  | '\\' :: 'p' :: rest => readProperty false rest
  | '\\' :: 'P' :: rest => readProperty true rest
  | '\\' :: c :: rest =>
    match escapedClass? c with
    | some item => .ok (item, rest)
    | none => readInterval s
  | s => readInterval s

/-- Reads the items up to the closing bracket, which is an item itself in the first place. -/
def readItems (first : Bool) (s : List Char) : Except SyntaxFlaw (List CharItem × List Char) :=
  if !first && s.head? = some ']' then .ok ([], s.tail)
  else do
    let (item, rest) ← readItem s
    if _shorter : rest.length < s.length then
      let (items, rest) ← readItems false rest
      .ok (item :: items, rest)
    else .error .missingBracket
termination_by s.length

/-- Reads a class; the opening bracket is read already. -/
def readClass (s : List Char) : Read CharSet :=
  match s with
  | '^' :: rest => (readItems true rest).map fun (items, rest) => (⟨items, true⟩, rest)
  | s => (readItems true s).map fun (items, rest) => (⟨items, false⟩, rest)

/-- Reads a count without leading zeros; a huge one is as good as any too large one. -/
def readCount? (s : List Char) : Option (Nat × List Char) :=
  let digits := s.takeWhile Char.isDigit
  match digits with
  | [] => none
  | '0' :: _ :: _ => none
  | _ => some (digits.foldl (fun n c => n * 10 + (c.toNat - 0x30)) 0, s.dropWhile Char.isDigit)

/-- Reads the counts of a repetition between braces; the opening brace is read already. -/
def readCounts? (s : List Char) : Option ((Nat × Option Nat) × List Char) := do
  let (min, rest) ← readCount? s
  match rest with
  | '\x7d' :: rest => some ((min, some min), rest)
  | ',' :: '\x7d' :: rest => some ((min, none), rest)
  | ',' :: rest =>
    let (max, rest) ← readCount? rest
    match rest with
    | '\x7d' :: rest => some ((min, some max), rest)
    | _ => none
  | _ => none

/-- Drops the mark of a reluctant repetition, which changes no answer. -/
def dropReluctant : List Char → List Char
  | '?' :: rest => rest
  | s => s

/-- The most that a repetition may count. -/
def maxCount : Nat := 1000

/-- Reads a repetition between braces, or else the brace itself. -/
def readBraces (s : List Char) : Read Token :=
  match readCounts? s with
  | none => .ok (.code 0x7b, s)
  | some ((min, max), rest) =>
    if maxCount < min || maxCount < max.getD 0 || max.getD min < min then .error .repeatSize
    else .ok (.times min max, dropReluctant rest)

/-- The text may name a group. -/
def isGroupName (name : List Char) : Bool :=
  !name.isEmpty && name.all fun c => isWordCode c.toNat

/-- Reads the name of a group up to its closing bracket. -/
def readGroupName (s : List Char) : Read Token :=
  match Text.cut? [ '>' ] s with
  | some (name, rest) =>
    if isGroupName name then .ok (.openGroup {} true, rest) else .error .badGroupName
  | none => .error .badGroupName

/-- Reads flag letters up to the colon or bracket after them. `clearing` holds after a minus, and
`any` once a letter was read on the current side of it. -/
def readFlags (f : FlagChange) (clearing any : Bool) : List Char → Read Token
  | [] => .error .badGroup
  | c :: rest =>
    if c = 'i' || c = 'm' || c = 's' || c = 'U' then
      if clearing then readFlags { f with off := c :: f.off } true true rest
      else readFlags { f with on := c :: f.on } false true rest
    else if c = '-' then if clearing then .error .badGroup else readFlags f true false rest
    else if c = ':' || c = ')' then
      if clearing && !any then .error .badGroup
      else .ok (if c = ':' then .openGroup f false else .setFlags f, rest)
    else .error .badGroup

/-- Reads the opening of a group; its bracket is read already. -/
def readOpening : List Char → Read Token
  | '?' :: 'P' :: '<' :: rest => readGroupName rest
  | '?' :: '<' :: rest => readGroupName rest
  | '?' :: rest => readFlags {} false false rest
  | rest => .ok (.openGroup {} true, rest)

/-- Reads what stands after a backslash outside brackets. -/
def readBackslash (s : List Char) : Read Token :=
  match s with
  | 'A' :: rest => .ok (.anchor .textStart, rest)
  | 'z' :: rest => .ok (.anchor .textEnd, rest)
  | 'b' :: rest => .ok (.anchor .boundary, rest)
  | 'B' :: rest => .ok (.anchor .noBoundary, rest)
  | 'Q' :: rest =>
    match Text.cut? "\\E".toList rest with
    | some (cs, rest) => .ok (.quoted cs, rest)
    | none => .ok (.quoted rest, [])
  | 'p' :: rest => (readProperty false rest).map fun (i, rest) => (.set ⟨[i], false⟩, rest)
  | 'P' :: rest => (readProperty true rest).map fun (i, rest) => (.set ⟨[i], false⟩, rest)
  | c :: rest =>
    match escapedClass? c with
    | some item => .ok (.set ⟨[item], false⟩, rest)
    | none => (readEscape s).map fun (code, rest) => (.code code, rest)
  | [] => .error .trailingBackslash

/-- Reads a token. -/
def readToken : List Char → Read Token
  | [] => .error .missingArgument
  | c :: rest =>
    match c with
    | '(' => readOpening rest
    | ')' => .ok (.closeGroup, rest)
    | '|' => .ok (.bar, rest)
    | '^' => .ok (.caret, rest)
    | '$' => .ok (.dollar, rest)
    | '.' => .ok (.dot, rest)
    | '[' => (readClass rest).map fun (s, rest) => (.set s, rest)
    | '*' => .ok (.times 0 none, dropReluctant rest)
    | '+' => .ok (.times 1 none, dropReluctant rest)
    | '?' => .ok (.times 0 (some 1), dropReluctant rest)
    | '\x7b' => readBraces rest
    | '\\' => readBackslash rest
    | c => .ok (.code c.toNat, rest)

/-- Reads all tokens. -/
def readTokens (s : List Char) : Except SyntaxFlaw (List Token) :=
  if s.isEmpty then .ok []
  else do
    let (t, rest) ← readToken s
    if _shorter : rest.length < s.length then
      let tokens ← readTokens rest
      .ok (t :: tokens)
    else .error .missingArgument
termination_by s.length

/-- A group that is being read: whether it captures, the flags that hold after it, its finished
alternatives and the parts of the current one, last first. -/
structure Group where
  captures : Bool := false
  outer : Flags := {}
  alternatives : List Regex := []
  parts : List Regex := []
deriving Inhabited

/-- The sequence of the parts, given last first. -/
def sequence (parts : List Regex) : Regex :=
  match parts.reverse with
  | [] => .empty
  | a :: rest => rest.foldl .seq a

/-- What the group matches. -/
def Group.regex (g : Group) : Regex :=
  let inside := g.alternatives.foldl (fun r a => .alt a r) (sequence g.parts)
  if g.captures then .group inside else inside

/-- The repetitions nested in an expression multiply to no more than `bound`. -/
def countsWithin (bound : Nat) : Regex → Bool
  | .rep a min max =>
    let most := max.getD min
    max = some 0 || (most ≤ bound && countsWithin (if most = 0 then bound else bound / most) a)
  | .group a => countsWithin bound a
  | .seq a b | .alt a b => countsWithin bound a && countsWithin bound b
  | _ => true

/-- The state of grouping: the flags in force, the innermost group, and those around it. -/
structure Grouping where
  flags : Flags := {}
  group : Group := {}
  around : List Group := []
  repeated : Bool := false
deriving Inhabited

/-- Adds a part to the innermost group. -/
def Grouping.push (g : Grouping) (r : Regex) : Grouping :=
  { g with group.parts := r :: g.group.parts, repeated := false }

/-- Repeats the last part. -/
def Grouping.repeatLast (g : Grouping) (min : Nat) (max : Option Nat) :
    Except SyntaxFlaw Grouping :=
  if g.repeated then .error .nestedRepeat
  else
    match g.group.parts with
    | [] => .error .missingArgument
    | a :: parts =>
      let r := Regex.rep a min max
      let large := 2 ≤ min || 2 ≤ max.getD 0
      if large && !countsWithin maxCount r then .error .repeatSize
      else .ok { g with group.parts := r :: parts, repeated := true }

/-- Takes one token. -/
def Grouping.step (g : Grouping) : Token → Except SyntaxFlaw Grouping
  | .code c => .ok (g.push (.literal g.flags.fold c))
  | .quoted cs =>
    .ok { cs.foldl (fun g c => g.push (.literal g.flags.fold c.toNat)) g with repeated := false }
  | .dot => .ok (g.push (.any g.flags.dotAll))
  | .caret => .ok (g.push (.anchor (if g.flags.lines then .lineStart else .textStart)))
  | .dollar => .ok (g.push (.anchor (if g.flags.lines then .lineEnd else .textEnd)))
  | .anchor a => .ok (g.push (.anchor a))
  | .set s => .ok (g.push (.chars g.flags.fold s))
  | .times min max => g.repeatLast min max
  | .setFlags f => .ok { g with flags := f.apply g.flags, repeated := false }
  | .openGroup f captures =>
    .ok {
      flags := f.apply g.flags
      group := { captures := captures, outer := g.flags }
      around := g.group :: g.around }
  | .closeGroup =>
    match g.around with
    | [] => .error .unexpectedParen
    | outer :: around =>
      .ok (Grouping.push { flags := g.group.outer, group := outer, around := around } g.group.regex)
  | .bar =>
    .ok { g with
      group := { g.group with
        alternatives := sequence g.group.parts :: g.group.alternatives, parts := [] }
      repeated := false }

/-- Reads an expression. -/
def parse (s : String) : Except SyntaxFlaw Regex := do
  let tokens ← readTokens s.toList
  let g ← tokens.foldlM Grouping.step {}
  if !g.around.isEmpty then .error .missingParen
  else
    let r := g.group.regex
    if r.isTooLarge then .error .tooLarge
    else if r.isTooDeep then .error .tooDeep
    else .ok r

end SmaliTrace.Regex
