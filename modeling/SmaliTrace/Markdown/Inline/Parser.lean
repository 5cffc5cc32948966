import SmaliTrace.Markdown.Inline
import SmaliTrace.Markdown.Tag

/-!
Reading the parts of a text. Brackets are kept open until the bracket that closes them, which tells
whether they enclose a link.
-/
namespace SmaliTrace.Markdown

/-- An open bracket: whether it opens an image, the pieces before it, last first, and the source
after it. -/
structure Bracket where
  image : Bool
  before : List Piece
  source : List Char

/-- The state of reading a text. `pieces` are the pieces since the innermost open bracket, last first,
and `pending` the characters of the open text on this line, last first. `previous` is the character
before the rest of the source. `bottom` counts the runs before the bracket that was opened last, if no
link was closed since. -/
structure InlineReader where
  pieces : List Piece := []
  pending : List Char := []
  brackets : List Bracket := []
  previous : Char := '\n'
  bottom : Option Nat := none

/-- The characters before and after the first run of just `size` backticks. `ticks` counts the
backticks that end `passed`, the characters so far, last first. -/
def codeSpan? (size ticks : Nat) (passed : List Char) : List Char → Option (List Char × List Char)
  | [] => if ticks = size then some ((passed.drop size).reverse, []) else none
  | c :: rest =>
    if c = '\x60' then codeSpan? size (ticks + 1) (c :: passed) rest
    else if ticks = size then some ((passed.drop size).reverse, c :: rest)
    else codeSpan? size 0 (c :: passed) rest

/-- The content of a code span. A line break after the opening backticks does not count. A blank or
line break at both ends belongs to the backticks, unless all is blank. Further line breaks are blanks,
except one at the end. -/
def codeContent (source : List Char) : List Char :=
  let (line, rest) := splitLine source
  let s := if line.contains '\n' && isBlank line then rest else source
  let isEdge (c : Char) := c = ' ' || c = '\n'
  let s :=
    if !isBlank s && s.head?.any isEdge && s.getLast?.any isEdge then (s.drop 1).dropLast else s
  let s := if s.getLast? = some '\n' then s.dropLast else s
  s.map fun c => if c = '\n' then ' ' else c

/-- The part is a link. -/
def Piece.isLink : Piece → Bool
  | .inline (.link _ _) => true
  | _ => false

/-- The target that follows a closing bracket, or that the label before the bracket refers to. -/
def linkAfter? (definitions : List Definition) (label rest : List Char) :
    Option (Target × List Char) :=
  let shortcut := (lookup? definitions label).map fun target => (target, rest)
  match rest with
  | '(' :: after => (target? after).or shortcut
  | '[' :: after =>
    let (line, further) := splitLine after
    match closing? '[' ']' .nested 0 [] line with
    | none => shortcut
    | some (name, after) =>
      let name := if isBlank name then label else name
      (lookup? definitions name).map fun target => (target, after ++ further)
  | _ => shortcut

namespace InlineReader

/-- Takes a character as text. -/
def push (s : InlineReader) (c : Char) : InlineReader :=
  { s with pending := c :: s.pending, previous := c }

/-- Ends the open text. -/
def flush (s : InlineReader) : InlineReader :=
  if s.pending.isEmpty then s
  else { s with pieces := .inline (.text s.pending.reverse) :: s.pieces, pending := [] }

/-- Takes a piece that ends with the character. -/
def add (s : InlineReader) (p : Piece) (last : Char) : InlineReader :=
  let s := s.flush
  { s with pieces := p :: s.pieces, previous := last }

/-- The open text without the spaces at its end. -/
def trimmed (s : InlineReader) : InlineReader := { s with pending := s.pending.dropWhile isSpace }

/-- Ends the line. -/
def endLine (s : InlineReader) (hard : Bool) : InlineReader :=
  s.trimmed.add (.inline (.lineBreak hard)) '\n'

/-- Two blanks end the line, after some text. -/
def endsHard (s : InlineReader) : Bool :=
  match s.pending with
  | ' ' :: ' ' :: _ :: _ => true
  | '\r' :: ' ' :: ' ' :: _ :: _ => true
  | _ => false

/-- The number of runs among the pieces. -/
def runCount (s : InlineReader) : Nat :=
  s.pieces.countP Piece.isRun +
    s.brackets.foldl (fun n b => n + b.before.countP Piece.isRun) 0

/-- Takes a backslash: before punctuation, at the end of a line after some text, or as text. -/
def backslash (s : InlineReader) (rest : List Char) : InlineReader × List Char :=
  match rest with
  | [] => (s.push '\\', rest)
  | c :: after =>
    if isPunctuation c then ((s.push '\\').push c, after)
    else if s.pending.isEmpty || s.pending.head? = some '\\' then (s.push '\\', rest)
    else if c = '\n' then (s.endLine true, after)
    else if c = '\r' && after.head? = some '\n' then (s.endLine true, after.drop 1)
    else (s.push '\\', rest)

/-- Takes a code span after its first backtick. Backticks that nothing closes are text. -/
def code (s : InlineReader) (rest : List Char) : InlineReader × List Char :=
  let size := (rest.takeWhile (· = '\x60')).length + 1
  let rest := rest.drop (size - 1)
  match codeSpan? size 0 [] rest with
  | some (content, after) => (s.add (.inline (.code (codeContent content))) '\x60', after)
  | none => (s.add (.inline (.text (List.replicate size '\x60'))) '\x60', rest)

/-- Takes a run after its first character. -/
def run (s : InlineReader) (c : Char) (rest : List Char) : InlineReader × List Char :=
  let size := (rest.takeWhile (· = c)).length + 1
  let rest := rest.drop (size - 1)
  (s.add (.run (Run.between c size s.previous (rest.headD ' '))) c, rest)

/-- Takes what stands in angle brackets. -/
def angle (s : InlineReader) (rest : List Char) : InlineReader × List Char :=
  match address? rest with
  | some (mail, address, after) => (s.add (.inline (.address mail address)) '>', after)
  | none =>
    match afterMark? rest with
    | some after => (s.add (.inline .tag) '>', after)
    | none => (s.push '<', rest)

/-- Opens a bracket. -/
def openBracket (s : InlineReader) (image : Bool) (rest : List Char) : InlineReader :=
  let s := s.flush
  { pieces := [], brackets := ⟨image, s.pieces, rest⟩ :: s.brackets, previous := '[',
    bottom := some s.runCount }

/-- The pieces of an open bracket that turned out to be text, and those before it. -/
def asText (pieces : List Piece) (b : Bracket) : List Piece :=
  pieces ++ .inline (.text (if b.image then ['!', '['] else ['['])) :: b.before

/-- All runs are text. -/
def settled (pieces : List Piece) : List Piece := pieces.map fun p => .inline p.settle

/-- Closes a bracket around a link. Runs emphasize within the link. If another link was closed in it,
the runs before it are text. -/
def closeLink (s : InlineReader) (b : Bracket) (outer : List Bracket) (target : Target) :
    InlineReader :=
  let inner := s.flush.pieces.reverse
  let before : InlineReader := { pieces := b.before, brackets := outer }
  let inner :=
    match s.bottom with
    | some count => settleRuns (count - before.runCount) inner
    | none => inner
  let content := emphasize inner
  let part := if b.image then Inline.image target content else .link target content
  let keep := if s.bottom.isSome then id else settled
  { pieces := .inline part :: keep b.before, previous := ']',
    brackets := outer.map fun b => { b with before := keep b.before } }

/-- Takes a closing bracket. There is no link within a link. -/
def closeBracket (s : InlineReader) (definitions : List Definition) (rest : List Char) :
    InlineReader × List Char :=
  match s.brackets with
  | [] => (s.push ']', rest)
  | b :: outer =>
    let label := b.source.take (b.source.length - rest.length - 1)
    let refused := !b.image && s.pieces.any Piece.isLink
    match if refused then none else linkAfter? definitions label rest with
    | some (target, after) => (s.closeLink b outer target, after)
    | none => ({ s with pieces := asText s.pieces b, brackets := outer }.push ']', rest)

/-- Takes a character and what it begins, and gives the rest of the source. -/
def step (s : InlineReader) (definitions : List Definition) (c : Char) (rest : List Char) :
    InlineReader × List Char :=
  match c with
  | '\n' => (s.endLine s.endsHard, rest)
  | '\\' => s.backslash rest
  | '\x60' => s.code rest
  | '*' | '_' => s.run c rest
  | '<' => s.angle rest
  | '[' => (s.openBracket false rest, rest)
  | ']' => s.closeBracket definitions rest
  | '!' =>
    match rest with
    | '[' :: after => (s.openBracket true after, after)
    | _ => (s.push c, rest)
  | _ => (s.push c, rest)

/-- Takes the source. Every step takes a character at least, so that the size of the source, `count`,
counts the steps. -/
def read (definitions : List Definition) : (count : Nat) → InlineReader → List Char → InlineReader
  | count + 1, s, c :: rest =>
    let (s, rest) := s.step definitions c rest
    read definitions count s rest
  | _, s, _ => s

/-- The parts that were read. Brackets that are still open are text. -/
def parts (s : InlineReader) : List Inline :=
  let s := s.trimmed.flush
  emphasize (s.brackets.foldl asText s.pieces).reverse

end InlineReader

/-- The parts of a text. -/
def inlines (definitions : List Definition) (source : List Char) : List Inline :=
  (InlineReader.read definitions source.length {} source).parts

end SmaliTrace.Markdown
