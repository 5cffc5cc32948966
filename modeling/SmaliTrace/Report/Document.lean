import SmaliTrace.Text.Cut

/-!
Documents of headings, paragraphs, tables, listings and bullets, written as Markdown. The text in a
document is Markdown source.
-/
namespace SmaliTrace.Report

/-- A run of text in Markdown notation: plain text, or a span of code. -/
inductive Inline where
  | text (source : String)
  | code (source : String)
deriving DecidableEq, Repr

/-- A part of a document. -/
inductive Block where
  | heading (level : Nat) (title : String)
  | paragraph (content : List Inline)
  | table (head : List String) (rows : List (List Inline))
  | listing (lines : List String)
  | bullets (items : List Inline)
deriving DecidableEq, Repr

/-- A document is its parts from top to bottom. -/
abbrev Document := List Block

/-- Replaces every character of the text. -/
def replaced (image : Char → String) (s : String) : String := String.join (s.toList.map image)

/-- The source of a code span that stands in a table: no bar ends the cell, no mark the span, and no
line break the row. -/
def cellCode : String → String :=
  replaced fun c =>
    match c with
    | '|' => "\\|"
    | '\x60' => "'"
    | '\n' => " "
    | c => c.toString

/-- The source of a text on one line: no bar ends a cell, and no bracket begins a tag. -/
def plain : String → String :=
  replaced fun c =>
    match c with
    | '|' => "\\|"
    | '<' => "&lt;"
    | '>' => "&gt;"
    | '\n' => " "
    | c => c.toString

/-- A run of text in Markdown. -/
def Inline.markdown : Inline → String
  | text source => source
  | code source => "\x60" ++ source ++ "\x60"

/-- A row of a table in Markdown. -/
def row (cells : List String) : String := "| " ++ Text.join " | " cells ++ " |\n"

/-- The fence around a listing. -/
def fence : String := "\x60\x60\x60\n"

/-- A part of a document in Markdown; an empty line ends it. -/
def Block.markdown : Block → String
  | heading level title => String.ofList (List.replicate level '#') ++ " " ++ title ++ "\n\n"
  | paragraph content => String.join (content.map Inline.markdown) ++ "\n\n"
  | table head rows =>
    row head ++ "|" ++ String.join (head.map fun _ => "---|") ++ "\n" ++
      String.join (rows.map fun cells => row (cells.map Inline.markdown)) ++ "\n"
  | listing lines => fence ++ String.join (lines.map (· ++ "\n")) ++ fence ++ "\n"
  | bullets items => String.join (items.map fun i => "- " ++ i.markdown ++ "\n") ++ "\n"

/-- A document in Markdown. -/
def Document.markdown (d : Document) : String := String.join (d.map Block.markdown)

end SmaliTrace.Report
