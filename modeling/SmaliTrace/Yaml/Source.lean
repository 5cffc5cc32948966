/-!
Texts in YAML: the characters that they may hold, line breaks, and places in a text; and the tokens that a text is cut
into.
-/
namespace SmaliTrace.Yaml

/-- The characters that a text may hold. -/
def isAllowed (c : Char) : Bool :=
  let n := c.toNat
  n = 0x09 || n = 0x0a || n = 0x0d || (0x20 ≤ n && n ≤ 0x7e) || n = 0x85 ||
    (0xa0 ≤ n && n ≤ 0xfffd) || 0x10000 ≤ n

/-- A text as far as it can be read; a broken one goes on with what cannot be read. -/
structure Source where
  text : List Char
  broken : Bool := false
deriving DecidableEq, Repr, Inhabited

/-- A text is read in blocks of so many bytes, and a block with a character that is not allowed is not
read at all. -/
def blockSize : Nat := 512

/-- Reads a text block by block. `done` holds the characters of the blocks that were read, and `block`
those of the block that is being read, last first; `size` is the size of that block. -/
def readBlocks (done block : List Char) (size : Nat) : List Char → Source
  | [] => ⟨(block ++ done).reverse, false⟩
  | c :: rest =>
    if blockSize < size + c.utf8Size then
      if isAllowed c then readBlocks (block ++ done) [c] c.utf8Size rest
      else ⟨(block ++ done).reverse, true⟩
    else if isAllowed c then readBlocks done (c :: block) (size + c.utf8Size) rest
    else ⟨done.reverse, true⟩

/-- Every line break within Latin text becomes a line feed. -/
def normalizeBreaks : List Char → List Char
  | [] => []
  | '\r' :: '\n' :: rest => '\n' :: normalizeBreaks rest
  | c :: rest => (if c = '\r' || c = '\u0085' then '\n' else c) :: normalizeBreaks rest

/-- The mark that can stand at the start of a text. -/
def byteOrderMark : Char := '\ufeff'

/-- The text to be read, without a mark at its start. -/
def Source.ofString (s : String) : Source :=
  let source :=
    match s.toList with
    | c :: rest =>
      if c = byteOrderMark then readBlocks [] [] c.utf8Size rest else readBlocks [] [] 0 (c :: rest)
    | [] => readBlocks [] [] 0 []
  { source with text := normalizeBreaks source.text }

/-- A place in a text: the number of the line, of the column, and of the character. -/
structure Mark where
  line : Nat := 0
  column : Nat := 0
  index : Nat := 0
deriving DecidableEq, Repr, Inhabited

/-- The place `n` characters further on the line. -/
def Mark.right (m : Mark) (n : Nat := 1) : Mark :=
  { m with column := m.column + n, index := m.index + n }

/-- The place after a line break. -/
def Mark.newLine (m : Mark) : Mark := ⟨m.line + 1, 0, m.index + 1⟩

/-- What was read, and where the text goes on. -/
structure Lexeme (α : Type) where
  value : α
  mark : Mark
  rest : List Char
deriving Repr

/-- A space or tab. -/
def isBlank (c : Char) : Bool := c = ' ' || c = '\t'

/-- A line feed, or one of the separators of lines and paragraphs. -/
def isBreak (c : Char) : Bool := c = '\n' || c = '\u2028' || c = '\u2029'

/-- The text ends, or starts with a line break. -/
def atBreak : List Char → Bool
  | [] => true
  | c :: _ => isBreak c

/-- The text ends, or starts with a blank or line break. -/
def atGap : List Char → Bool
  | [] => true
  | c :: _ => isBlank c || isBreak c

/-- The text starts with three times the character, and a gap. -/
def atTriple (c : Char) (s : List Char) : Bool :=
  s.take 3 = [c, c, c] && atGap (s.drop 3)

/-- The text starts with a mark between documents. -/
def atDocumentMark (s : List Char) : Bool := atTriple '-' s || atTriple '.' s

/-- Passes over the characters of a line that satisfy `p`. -/
def passWhile (p : Char → Bool) (m : Mark) (s : List Char) : Mark × List Char :=
  (m.right (s.takeWhile p).length, s.dropWhile p)

/-- Passes over blanks and a comment up to the end of the line, and over its break. -/
def passLine? (m : Mark) (s : List Char) : Option (Mark × List Char) :=
  let (m, s) := passWhile isBlank m s
  let (m, s) := if s.head? = some '#' then passWhile (!isBreak ·) m s else (m, s)
  match s with
  | [] => some (m, [])
  | c :: rest => if isBreak c then some (m.newLine, rest) else none

/-! ### Tokens -/

/-- A token. Starts and ends of block collections are tokens of their own, though no character stands
for them; `broken` stands for text that has no tokens. -/
inductive Token where
  | broken
  | streamEnd
  | version (major minor : Nat)
  | tagHandle (handle expansion : String)
  | documentStart
  | documentEnd
  | blockSequenceStart
  | blockMappingStart
  | blockEnd
  | flowSequenceStart
  | flowSequenceEnd
  | flowMappingStart
  | flowMappingEnd
  | blockEntry
  | flowEntry
  | key
  | value
  | reference (name : String)
  | anchor (name : String)
  | tag (handle suffix : String)
  | scalar (plain : Bool) (text : String)
deriving DecidableEq, Repr, Inhabited

end SmaliTrace.Yaml
