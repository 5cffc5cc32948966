import SmaliTrace.Markdown.Character

/-!
The blocks of a document, and tables, which are paragraphs of a certain form.
-/
namespace SmaliTrace.Markdown

/-- How the cells of a column are set. -/
inductive Alignment where
  | none
  | left
  | right
  | center
deriving DecidableEq, Repr, Inhabited

/-- A part of a document. Texts are source. In a list of short items the paragraphs are plain. -/
inductive Block where
  | paragraph (source : List Char)
  | plain (source : List Char)
  | heading (level : Nat) (source : List Char)
  | thematicBreak
  | code (language : Option (List Char)) (content : List Char)
  | html (closed : Bool)
  | table (columns : List Alignment) (head : List (List Char)) (rows : List (List (List Char)))
  | quote (content : List Block)
  | list (start : Option Nat) (items : List (List Block))
deriving Repr, Inhabited

/-- The size of the cell at the start of a text: up to a bar that stands neither in a code span nor
behind a backslash. `span` is the size of the backticks of the open code span, and `size` counts the
characters so far. -/
def cellSize (size span : Nat) (s : List Char) : Nat :=
  match s with
  | [] => size
  | c :: rest =>
    if c = '\x60' then
      let ticks := (rest.takeWhile (· = '\x60')).length
      let span := if span = 0 then ticks + 1 else if span = ticks + 1 then 0 else span
      cellSize (size + ticks + 1) span (rest.drop ticks)
    else if span ≠ 0 then cellSize (size + 1) span rest
    else if c = '|' then size
    else
      match rest with
      | [] => size + 1
      | d :: after =>
        if c = '\\' && isPunctuation d then cellSize (size + 2) span after
        else cellSize (size + 1) span (d :: after)
termination_by s.length

/-- The cells of a text. They start within its first `limit` characters. -/
def cellsWithin (limit : Nat) (s : List Char) : List (List Char) :=
  match s with
  | [] => []
  | c :: rest =>
    if limit = 0 then []
    else
      let size := cellSize 0 0 (c :: rest)
      trim ((c :: rest).take size) :: cellsWithin (limit - (size + 1)) (rest.drop size)
termination_by s.length

/-- The cells of a row. A bar before the first and a bar behind the last cell are not needed. -/
def cells (line : List Char) : List (List Char) :=
  let line := trim line
  let body := if line.head? = some '|' then line.drop 1 else line
  cellsWithin (if line.getLast? = some '|' then body.length - 1 else body.length) body

/-- The characters between the bars. -/
def splitBars (cell : List Char) : List Char → List (List Char)
  | [] => [cell.reverse]
  | c :: rest => if c = '|' then cell.reverse :: splitBars [] rest else splitBars (c :: cell) rest

/-- The alignment that a cell under the head of a table says: hyphens, and a colon at the side that
cells are set to. -/
def alignment? (cell : List Char) : Option Alignment :=
  let cell := trim cell
  let left := cell.head? == some ':'
  let body := if left then cell.drop 1 else cell
  let right := body.getLast? == some ':'
  let body := if right then body.dropLast else body
  if body.isEmpty || body.any (· ≠ '-') then none
  else
    match left, right with
    | false, false => some .none
    | true, false => some .left
    | false, true => some .right
    | true, true => some .center

/-- The alignments that the line under the head of a table says. -/
def alignments? (line : List Char) : Option (List Alignment) :=
  let columns := splitBars [] line
  let columns := if columns.head?.any isBlank then columns.drop 1 else columns
  let columns := if columns.getLast?.any isBlank then columns.dropLast else columns
  if columns.isEmpty then none else columns.mapM alignment?

/-- A list of the given length, cut off or filled up. -/
def fit (size : Nat) (row : List (List Char)) : List (List Char) :=
  row.take size ++ List.replicate (size - row.length) []

/-- The table that the lines of a paragraph make: the head, the alignments, and further rows, which
have as many cells as there are columns. -/
def table? : List (List Char) → Option Block
  | first :: second :: rows => do
    let columns ← alignments? second
    let head := cells first
    if columns.length < head.length then none
    else
      let row (line : List Char) := fit columns.length (cells line)
      some (.table columns (row first) (rows.map row))
  | _ => none

end SmaliTrace.Markdown
