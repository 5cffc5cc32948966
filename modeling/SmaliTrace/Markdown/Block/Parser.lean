import SmaliTrace.Markdown.Block
import SmaliTrace.Markdown.Cursor
import SmaliTrace.Markdown.Link
import SmaliTrace.Markdown.Tag

/-!
Reading the blocks of a document line by line. A line goes on with some of the open blocks, from the
outermost inwards, closes the others and opens new ones. A paragraph also goes on with a line that does
not go on with the blocks around it, if the line opens no block.
-/
namespace SmaliTrace.Markdown

/-- The marks around a block of code: the character, how many there are, and their indentation. -/
structure Fence where
  mark : Char
  size : Nat
  indent : Nat
deriving DecidableEq, Repr

/-- An item of a list. It is spread if a blank line stands between its blocks. -/
structure Item where
  afterBlank : Bool
  spread : Bool
  content : List Block
deriving Repr

/-- What an open block has read so far. Lines, blocks and items are last first. A `line` is a block that
ends with its line. -/
inductive Growth where
  | line (block : Block)
  | paragraph (lines : List (List Char))
  | code (lines : List (List Char))
  | fenced (fence : Fence) (language : Option (List Char)) (lines : List (List Char))
  | html (ends : HtmlEnd) (first : Option (List Char)) (closed : Bool)
  | quote (content : List Block)
  | list (mark : Char) (start : Option Nat) (items : List Item)
  | item (offset : Nat) (spread : Bool) (content : List Block)
deriving Repr, Inhabited

/-- An open block, and whether a blank line stands before it. -/
structure OpenBlock where
  afterBlank : Bool
  growth : Growth
deriving Repr, Inhabited

/-- That a line was blank from the block at some depth on. -/
structure LineNote where
  line : Nat
  depth : Nat
  blank : Bool
deriving DecidableEq, Repr

/-- The state of reading a document. Open blocks are innermost first, and closed ones last first. -/
structure BlockReader where
  number : Nat := 0
  blocks : List OpenBlock := []
  content : List Block := []
  definitions : List Definition := []
  notes : List LineNote := []

/-- The notes, last first, say that a line was blank at a depth, or further out. -/
def notedBlank (line depth : Nat) : List LineNote → Bool
  | [] => false
  | note :: notes =>
    if note.line = line && note.depth < depth && note.blank then true
    else if note.line = line && note.depth = depth then note.blank
    else if note.line < line then false
    else notedBlank line depth notes

/-- The line before a block at some depth is blank. -/
def isAfterBlank (line depth : Nat) (notes : List LineNote) : Bool :=
  match notes.drop depth with
  | [] => true
  | notes => notedBlank line depth notes

/-- Three or more of the same mark, and spaces. -/
def isThematicBreak (s : List Char) : Bool :=
  match s.filter fun c => !isSpace c with
  | c :: rest => (c = '*' || c = '-' || c = '_') && rest.all (· = c) && 2 ≤ rest.length
  | [] => false

/-- The level of the heading that a line under a paragraph makes it. -/
def underlineLevel? (s : List Char) : Option Nat :=
  if 3 < (s.takeWhile (· = ' ')).length then none
  else
    match trimEnd (s.dropWhile (· = ' ')) with
    | '=' :: rest => if rest.all (· = '=') then some 1 else none
    | '-' :: rest => if rest.all (· = '-') then some 2 else none
    | _ => none

/-- The mark of an item: its last character, the number before it, and where it ends. -/
structure ItemMark where
  char : Char
  start : Option Nat
  stop : Nat
deriving DecidableEq, Repr

/-- The most digits of the number of an item. -/
def maxItemDigits : Nat := 9

/-- Reads the mark of an item at the start of a line: a bullet, or a number with a point or
parenthesis. A blank or the end of the line follows it. -/
def itemMark? (s : List Char) : Option ItemMark :=
  let indent := (s.takeWhile (· = ' ')).length
  let body := s.drop indent
  let digits := body.takeWhile Char.isDigit
  let mark? : Option ItemMark :=
    match body with
    | '-' :: _ => some ⟨'-', none, indent + 1⟩
    | '*' :: _ => some ⟨'*', none, indent + 1⟩
    | '+' :: _ => some ⟨'+', none, indent + 1⟩
    | _ =>
      if digits.isEmpty || maxItemDigits < digits.length then none
      else
        match body.drop digits.length with
        | '.' :: _ => some ⟨'.', Text.digitsValue? Text.hexValue? 10 digits, indent + digits.length + 1⟩
        | ')' :: _ => some ⟨')', Text.digitsValue? Text.hexValue? 10 digits, indent + digits.length + 1⟩
        | _ => none
  if 3 < indent then none
  else
    mark?.filter fun m =>
      match s[m.stop]? with
      | none => true
      | some c => c = '\n' || indents c

/-- The width between the mark of an item and its text. Deep indentation belongs to the text. -/
def itemGap (m : ItemMark) (s : List Char) : Nat :=
  let rest := s.drop m.stop
  if isBlank rest then 1
  else
    let width := indentation m.stop rest
    if 4 < width then 1 else width

/-- The title of a heading without the marks that may close it. -/
def headingTitle (s : List Char) : List Char :=
  let title := trim s
  let before := Text.dropEndWhile (· = '#') title
  if before.isEmpty then []
  else if before.length < title.length && before.getLast?.any isSpace then before
  else title

/-- Reads a heading, its title behind one to six marks. -/
def heading? (s : List Char) : Option Block :=
  let level := (s.takeWhile (· = '#')).length
  let rest := s.drop level
  if level = 0 || 6 < level || !rest.head?.any isSpace then none
  else some (.heading level (headingTitle rest))

/-- Reads the line before a block of code, and its language. -/
def fence? (indent : Nat) (s : List Char) : Option Growth :=
  match s with
  | [] => none
  | mark :: _ =>
    let size := (s.takeWhile (· = mark)).length
    let info := trim (s.drop size)
    if size < 3 || mark = '\x60' && info.contains mark then none
    else
      let language := if info.isEmpty then none else some (info.takeWhile (· ≠ ' '))
      some (.fenced ⟨mark, size, indent⟩ language [])

/-- The line after the mark of a quote. A tab after the mark leaves blanks over. -/
def afterQuoteMark? (c : Cursor) : Option Cursor :=
  let column := (c.text.takeWhile indents).length
  if 3 < c.indent then none
  else
    match c.body with
    | '>' :: ' ' :: _ => some (c.advance (column + 2))
    | '>' :: '\t' :: _ => some { c.advance (column + 2) with padding := 2 }
    | '>' :: _ => some (c.advance (column + 1))
    | _ => none

/-- A blank line in a block of code, without the indentation of the code. -/
def dropIndentation : (width : Nat) → List Char → List Char
  | width + 1, ' ' :: c :: rest => dropIndentation width (c :: rest)
  | width + 1, '\t' :: c :: rest => List.replicate (3 - width) ' ' ++ (c :: rest)
  | _, s => s

/-- A line in a fenced block of code, without the indentation of the fence. -/
def dedent (indent : Nat) (c : Cursor) : List Char :=
  if indent = 0 then c.rest else List.replicate (c.indent - indent) ' ' ++ c.body

/-- The line closes a fenced block of code. -/
def Fence.isClosed (f : Fence) (c : Cursor) : Bool :=
  let size := (c.body.takeWhile (· = f.mark)).length
  c.indent < 4 && f.size ≤ size && isBlank (c.body.drop size)

/-- The list goes on with a line that is not blank: it belongs to the item, whose text starts at
`offset`, or has a mark of the same kind. A thematic break has priority. -/
def listContinues (mark : Char) (offset : Nat) (c : Cursor) : Bool :=
  if offset ≤ c.indent then true
  else if 4 ≤ c.indent then false
  else
    match itemMark? c.text with
    | none => false
    | some m => m.char = mark && !isThematicBreak (c.text.drop (m.stop - 1))

/-- Whether a block goes on with a line, what it has read then, and the rest of the line. `inner` are
the open blocks within it, outermost first. -/
def Growth.continue (c : Cursor) (inner : List OpenBlock) : Growth → Bool × Growth × Cursor
  | line b => (false, .line b, c)
  | paragraph lines => (false, .paragraph lines, c)
  | code lines =>
    if isBlank c.text then (true, .code (dropIndentation 4 c.text :: lines), c)
    else
      match c.indented? 4 with
      | some c => (true, .code (c.text :: lines), c)
      | none => (false, .code lines, c)
  | fenced f language lines =>
    if f.isClosed c then (false, .fenced f language lines, c.atEnd)
    else (true, .fenced f language (dedent f.indent c :: lines), c)
  | html .blankLine first closed => (!isBlank c.text, .html .blankLine first closed, c)
  | html ends first closed =>
    if first.any ends.isIn then (false, .html ends first closed, c)
    else if ends.isIn c.text then (false, .html ends none true, c.atEnd)
    else (true, .html ends none closed, c)
  | quote content =>
    match afterQuoteMark? c with
    | some c => (true, .quote content, c)
    | none => (false, .quote content, c)
  | list mark start items =>
    match inner with
    | ⟨_, .item offset _ content⟩ :: within =>
      let isEmpty := items.isEmpty && content.isEmpty && within.isEmpty
      let goesOn := if isBlank c.text then !isEmpty else listContinues mark offset c
      (goesOn, .list mark start items, c)
    | _ => (false, .list mark start items, c)
  | item offset spread content =>
    if isBlank c.text then (true, .item offset spread content, c)
    else if c.indent < offset && c.indent < 4 then (false, .item offset spread content, c)
    else
      match c.indented? offset with
      | some c => (true, .item offset spread content, c)
      | none => (false, .item offset spread content, c)

/-- Other blocks can stand in the block. -/
def Growth.isContainer : Growth → Bool
  | quote _ | list _ _ _ | item _ _ _ => true
  | _ => false

/-- The block is a paragraph. -/
def Growth.isParagraph : Growth → Bool
  | paragraph _ => true
  | _ => false

/-- The block is a list. -/
def Growth.isList : Growth → Bool
  | list _ _ _ => true
  | _ => false

/-- Where new blocks are opened: within a list, after a paragraph, and after a paragraph that stands in
the same block. -/
structure Surroundings where
  inList : Bool := false
  afterText : Bool := false
  afterSibling : Bool := false
deriving DecidableEq, Repr

/-- Opens an item, and its list unless it stands in one. After a paragraph in the same block, the item
has text, and the number one if it has a number. Gives the rest of the line, if there is any text. -/
def openItem? (around : Surroundings) (c : Cursor) : Option (List Growth × Option Cursor) := do
  let s := c.text
  let m ← itemMark? s
  let rest := s.drop m.stop
  if around.afterSibling && (m.start.any (· ≠ 1) || isBlank rest) then none
  else
    let gap := itemGap m s
    let item := Growth.item (m.stop + gap) false []
    let opened := if around.inList then [item] else [.list m.char m.start [], item]
    if isBlank rest then some (opened, none)
    else
      let (count, padding) ← indentPosition? m.stop gap rest
      some (opened, some (c.advancePadded (m.stop + count) padding))

/-- Opens the block that a mark at the start of a line tells, and gives the rest of the line, if blocks
can stand in it. -/
def openMarked? (around : Surroundings) (c : Cursor) : Option (List Growth × Option Cursor) :=
  let s := c.body
  let item? := if isThematicBreak s then some ([.line .thematicBreak], none) else openItem? around c
  match s with
  | '-' :: _ | '*' :: _ => item?
  | '_' :: _ => if isThematicBreak s then some ([.line .thematicBreak], none) else none
  | '#' :: _ => (heading? s).map fun b => ([.line b], none)
  | '\x60' :: _ | '~' :: _ =>
    (fence? (c.text.takeWhile indents).length s).map fun g => ([g], none)
  | '>' :: _ => (afterQuoteMark? c).map fun c => ([.quote []], some c)
  | '<' :: rest =>
    (htmlBlock? around.afterText rest).map fun ends => ([.html ends (some c.text) false], none)
  | c :: _ => if c = '+' || c.isDigit then item? else none
  | [] => none

/-- Opens the blocks that a line starts with, outermost first. At least one character is taken for
every block that others can stand in, so that the size of the line, `count`, counts the steps. -/
def openBlocks (around : Surroundings) (c : Cursor) : (count : Nat) → List Growth
  | 0 => []
  | count + 1 =>
    let text := trimStart c.rest
    if text.isEmpty then []
    else if 3 < c.indent then
      match c.indented? 4 with
      | some c => if around.afterText then [] else [.code [c.text]]
      | none => []
    else
      match openMarked? around c with
      | some (opened, some c) => opened ++ openBlocks {} c count
      | some (opened, none) => opened
      | none => if around.afterText then [] else [.paragraph [text]]

/-- The lines of a paragraph in order, without the spaces at its end. -/
def paragraphLines (lines : List (List Char)) : List (List Char) :=
  match lines with
  | [] => []
  | last :: before => (trimEnd last :: before).reverse

/-- The blocks of an item as they stand in a list: in a tight list paragraphs are plain. -/
def Item.blocks (tight : Bool) (i : Item) : List Block :=
  i.content.map fun b =>
    match b with
    | .paragraph source => if tight then .plain source else .paragraph source
    | b => b

/-- A list is tight if no blank line stands between its items, or between the blocks of one. -/
def isTight : List Item → Bool
  | [] => true
  | first :: rest => !first.spread && rest.all fun i => !i.spread && !i.afterBlank

/-- The definitions of a closed block, and the block itself. Definitions at the start of a paragraph do
not belong to it. An item alone makes no block. -/
def Growth.close : Growth → List Definition × Block
  | line b => ([], b)
  | paragraph lines =>
    let (definitions, lines) := splitDefinitions (paragraphLines lines)
    match lines with
    | [] => (definitions, .plain [])
    | lines => (definitions, (table? lines).getD (.paragraph lines.flatten))
  | code lines => ([], .code none (lines.dropWhile isBlank).reverse.flatten)
  | fenced _ language lines => ([], .code language lines.reverse.flatten)
  | html _ _ closed => ([], .html closed)
  | quote content => ([], .quote content.reverse)
  | list _ start items =>
    let items := items.reverse
    ([], .list start (items.map (Item.blocks (isTight items))))
  | item _ _ content => ([], .quote content.reverse)

/-- The block stands in no other form than a table after it was closed. -/
def isTable : Block → Bool
  | .table _ _ _ => true
  | _ => false

namespace BlockReader

/-- Puts a closed block into the innermost open block. -/
def attach (s : BlockReader) (afterBlank : Bool) (b : Block) : BlockReader :=
  match s.blocks with
  | [] => { s with content := b :: s.content }
  | ⟨blank, .quote content⟩ :: outer =>
    { s with blocks := ⟨blank, .quote (b :: content)⟩ :: outer }
  | ⟨blank, .item offset spread content⟩ :: outer =>
    let spread := spread || afterBlank && !isTable b && !content.isEmpty
    { s with blocks := ⟨blank, .item offset spread (b :: content)⟩ :: outer }
  | _ => s

/-- Closes the innermost open block. -/
def closeInnermost (s : BlockReader) : BlockReader :=
  match s.blocks with
  | [] => s
  | ⟨afterBlank, .item _ spread content⟩ :: ⟨blank, .list mark start items⟩ :: outer =>
    let items := ⟨afterBlank, spread, content.reverse⟩ :: items
    { s with blocks := ⟨blank, .list mark start items⟩ :: outer }
  | b :: outer =>
    let (definitions, block) := b.growth.close
    attach { s with blocks := outer, definitions := s.definitions ++ definitions } b.afterBlank block

/-- Closes open blocks, innermost first. -/
def close (s : BlockReader) : (count : Nat) → BlockReader
  | 0 => s
  | count + 1 => s.closeInnermost.close count

/-- The innermost open block is a list. -/
def inList (s : BlockReader) : Bool := s.blocks.head?.any fun b => b.growth.isList

/-- Opens the blocks that the rest of a line starts with. -/
def openOn (s : BlockReader) (afterBlank : Bool) (c : Cursor) (around : Surroundings) : BlockReader :=
  let opened := openBlocks around c (c.rest.length + 1)
  { s with blocks := (opened.map (OpenBlock.mk afterBlank)).reverse ++ s.blocks }

/-- How far a line goes on with the open blocks: the blocks that it goes on with, innermost first, the
others, outermost first, and the rest of the line. -/
structure Progress where
  kept : List OpenBlock
  broken : List OpenBlock
  cursor : Cursor
  notes : List LineNote

/-- Goes on with the open blocks, which are given outermost first. -/
def goOn (number depth : Nat) (kept : List OpenBlock) (c : Cursor) (notes : List LineNote) :
    List OpenBlock → Progress
  | [] => ⟨kept, [], c, notes⟩
  | b :: inner =>
    let notes := ⟨number, depth, isBlank c.text⟩ :: notes
    let (goesOn, growth, c) := b.growth.continue c inner
    let b := { b with growth }
    if goesOn then goOn number (depth + 1) (b :: kept) c notes inner
    else ⟨kept, b :: inner, c, notes⟩

/-- Closes the blocks that a line ends, and opens those that it starts with. -/
def exchange (s : BlockReader) (p : Progress) (around : Surroundings) : BlockReader :=
  let s := { s with blocks := p.broken.reverse ++ p.kept }
  let afterBlank := isAfterBlank (s.number - 1) p.kept.length p.notes
  (s.close p.broken.length).openOn afterBlank p.cursor around

/-- Takes a line that ends the block after the kept ones. The line may underline a paragraph, go on
with a paragraph within the blocks that end, or open others. -/
def replace (s : BlockReader) (p : Progress) : BlockReader :=
  let c := p.cursor
  let inList := p.kept.head?.any fun b => b.growth.isList
  match p.broken.reverse ++ p.kept with
  | ⟨blank, .paragraph lines⟩ :: outer =>
    let sibling := p.broken.length = 1
    let level? := if sibling && c.indent < 4 then underlineLevel? c.text else none
    match level? with
    | some level =>
      let (definitions, remaining) := splitDefinitions (paragraphLines lines)
      if remaining.isEmpty || (table? remaining).isSome then s.exchange p ⟨inList, false, false⟩
      else
        { s with
          blocks := ⟨blank, .line (.heading level remaining.flatten)⟩ :: outer
          definitions := s.definitions ++ definitions }
    | none =>
      let around := ⟨inList, true, sibling⟩
      let text := trimStart c.rest
      if !text.isEmpty && (openBlocks around c (c.rest.length + 1)).isEmpty then
        { s with blocks := ⟨blank, .paragraph (text :: lines)⟩ :: outer }
      else s.exchange p around
  | _ => s.exchange p ⟨inList, false, false⟩

/-- Takes a line. -/
def step (s : BlockReader) (line : List Char) : BlockReader :=
  let number := s.number + 1
  let s := { s with number }
  let c : Cursor := { rest := line }
  if s.blocks.isEmpty then
    if isBlank line then { s with notes := [] }
    else s.openOn (isAfterBlank (number - 1) 0 s.notes) c {}
  else
    let p := goOn number 0 [] c s.notes s.blocks.reverse
    let s := { s with notes := p.notes }
    if !p.broken.isEmpty then s.replace p
    else
      let s := { s with blocks := p.kept }
      if p.kept.head?.any fun b => b.growth.isContainer then
        s.openOn (isAfterBlank (number - 1) (p.kept.length - 1) p.notes) p.cursor ⟨s.inList, false, false⟩
      else s

end BlockReader

/-- A document: its blocks, and the targets that labels refer to. -/
structure Document where
  blocks : List Block
  definitions : List Definition
deriving Repr

/-- Reads a document. -/
def Document.ofSource (source : List Char) : Document :=
  let s := (linesFrom [] source).foldl BlockReader.step {}
  let s := s.close s.blocks.length
  ⟨s.content.reverse, s.definitions⟩

end SmaliTrace.Markdown
