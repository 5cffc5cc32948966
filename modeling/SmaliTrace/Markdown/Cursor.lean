import SmaliTrace.Markdown.Character

/-!
Lines of a document that are read from the left: the marks of the blocks around a line are taken off
it one after the other.
-/
namespace SmaliTrace.Markdown

/-- The rest of a line. `column` is the column of its first character, and `padding` the number of
blanks that are left over from a tab before it. -/
structure Cursor where
  column : Nat := 0
  padding : Nat := 0
  rest : List Char
deriving DecidableEq, Repr, Inhabited

/-- Passes over characters. -/
def passFrom (column : Nat) : (count : Nat) → List Char → Cursor
  | count + 1, c :: rest => passFrom (column + if c = '\t' then tabWidth column else 1) count rest
  | _, s => ⟨column, 0, s⟩

namespace Cursor

/-- The rest of the line with the blanks before it. -/
def text (c : Cursor) : List Char := List.replicate c.padding ' ' ++ c.rest

/-- The column of the rest of the line with the blanks before it. -/
def start (c : Cursor) : Nat := c.column - c.padding

/-- The width of the indentation. -/
def indent (c : Cursor) : Nat := indentation c.start c.text

/-- The rest of the line without its indentation. -/
def body (c : Cursor) : List Char := c.text.dropWhile indents

/-- Passes over characters of the text. -/
def advance (c : Cursor) (count : Nat) : Cursor :=
  if count ≤ c.padding then { c with padding := c.padding - count }
  else passFrom c.column (count - c.padding) c.rest

/-- Passes over characters, and leaves blanks over. -/
def advancePadded (c : Cursor) (count padding : Nat) : Cursor :=
  let c := c.advance count
  { c with padding := max padding c.padding }

/-- The end of the line, before its line feed. -/
def atEnd (c : Cursor) : Cursor := { c with padding := 0, rest := ['\n'] }

end Cursor

/-- The characters to pass over, and the blanks left over, for an indentation of some width in a text
at the column. If there are tabs, all of the indentation is passed and what is too much is left
over. -/
def indentPosition? (column width : Nat) (s : List Char) : Option (Nat × Nat) :=
  let blanks := s.takeWhile indents
  let found := indentation column s
  if width = 0 then some (0, 0)
  else if found < width then none
  else if blanks.contains '\t' then some (blanks.length, found - width)
  else some (width, 0)

/-- The line after an indentation of the width. -/
def Cursor.indented? (c : Cursor) (width : Nat) : Option Cursor :=
  (indentPosition? c.start width c.text).map fun (count, padding) => c.advancePadded count padding

end SmaliTrace.Markdown
