import SmaliTrace.Markdown.Block.Parser
import SmaliTrace.Markdown.Inline.Parser

/-!
Documents in HTML. Every writer puts its part behind the page so far. What is HTML in the source is left
out.
-/
namespace SmaliTrace.Markdown

/-- What stands in place of HTML in the source. -/
def omitted : String := "<!-- raw HTML omitted -->"

mutual

/-- The source of the text of a part. -/
def Inline.source : Inline → List Char
  | .text source => source
  | .lineBreak _ => []
  | .code content => content
  | .emphasis _ content => sources content
  | .link _ content => sources content
  | .image _ content => sources content
  | .address _ content => content
  | .tag => []

/-- The source of the text of parts. -/
def sources : List Inline → List Char
  | [] => []
  | part :: rest => part.source ++ sources rest

end

/-- An address as a link to itself. -/
def addressLink (mail : Bool) (address : List Char) : String :=
  let scheme := if mail && !Text.startsWith "mailto:" (address.map Char.toLower) then "mailto:" else ""
  "<a href=\"" ++ scheme ++ addressHtml address ++ "\">" ++ escape address ++ "</a>"

mutual

/-- Writes a part of a text. -/
def Inline.write (out : String) : Inline → String
  | .text source => writeText out source
  | .lineBreak hard => out ++ if hard then "<br>\n" else "\n"
  | .code content => out ++ "<code>" ++ escape content ++ "</code>"
  | .emphasis strong content =>
    let tag := if strong then "strong" else "em"
    writeInlines (out ++ "<" ++ tag ++ ">") content ++ "</" ++ tag ++ ">"
  | .link target content =>
    writeInlines (out ++ "<a href=\"" ++ target.address ++ "\"" ++ target.titleHtml ++ ">") content ++
      "</a>"
  | .image target content =>
    out ++ "<img src=\"" ++ target.address ++ "\" alt=\"" ++ escape (sources content) ++ "\"" ++
      target.titleHtml ++ ">"
  | .address mail content => out ++ addressLink mail content
  | .tag => out ++ omitted

/-- Writes the parts of a text. -/
def writeInlines (out : String) : List Inline → String
  | [] => out
  | part :: rest => writeInlines (part.write out) rest

end

/-- The attribute of a cell that is set to a side. -/
def Alignment.html : Alignment → String
  | none => ""
  | left => " align=\"left\""
  | right => " align=\"right\""
  | center => " align=\"center\""

/-- Writes a source between two texts. -/
def writeSource (definitions : List Definition) (out : String) (before : String)
    (source : List Char) (after : String) : String :=
  writeInlines (out ++ before) (inlines definitions source) ++ after

/-- Writes the cells of a row. -/
def writeCells (definitions : List Definition) (tag : String) (columns : List Alignment)
    (out : String) (row : List (List Char)) : String :=
  (columns.zip row).foldl (fun out (column, cell) =>
    writeSource definitions out ("<" ++ tag ++ column.html ++ ">") cell ("</" ++ tag ++ ">\n")) out

/-- Writes a table. -/
def writeTable (definitions : List Definition) (out : String) (columns : List Alignment)
    (head : List (List Char)) (rows : List (List (List Char))) : String :=
  let out := writeCells definitions "th" columns (out ++ "<table>\n<thead>\n<tr>\n") head
  let out := out ++ "</tr>\n</thead>\n"
  let body (out : String) : String := rows.foldl (fun out row =>
    writeCells definitions "td" columns (out ++ "<tr>\n") row ++ "</tr>\n") out
  let out := if rows.isEmpty then out else body (out ++ "<tbody>\n") ++ "</tbody>\n"
  out ++ "</table>\n"

/-- The block is plain text. -/
def Block.isPlain : Block → Bool
  | plain _ => true
  | _ => false

/-- The attribute for the first number of a list. -/
def startHtml : Option Nat → String
  | some n => if n = 1 then "" else " start=\"" ++ toString n ++ "\""
  | none => ""

mutual

/-- Writes a block. `isLast` tells that no block follows it. -/
def Block.write (definitions : List Definition) (isLast : Bool) (out : String) : Block → String
  | .paragraph source => writeSource definitions out "<p>" source "</p>\n"
  | .plain source =>
    writeSource definitions out "" source (if isLast || source.isEmpty then "" else "\n")
  | .heading level source =>
    let tag := "h" ++ toString level
    writeSource definitions out ("<" ++ tag ++ ">") source ("</" ++ tag ++ ">\n")
  | .thematicBreak => out ++ "<hr>\n"
  | .code language content =>
    let attribution :=
      match language with
      | some language => " class=\"language-" ++ text language ++ "\""
      | none => ""
    out ++ "<pre><code" ++ attribution ++ ">" ++ escape content ++ "</code></pre>\n"
  | .html closed => out ++ omitted ++ "\n" ++ if closed then omitted ++ "\n" else ""
  | .table columns head rows => writeTable definitions out columns head rows
  | .quote content => writeBlocks definitions (out ++ "<blockquote>\n") content ++ "</blockquote>\n"
  | .list start items =>
    let tag := if start.isSome then "ol" else "ul"
    writeItems definitions (out ++ "<" ++ tag ++ startHtml start ++ ">\n") items ++ "</" ++ tag ++ ">\n"

/-- Writes blocks. -/
def writeBlocks (definitions : List Definition) (out : String) : List Block → String
  | [] => out
  | block :: rest => writeBlocks definitions (block.write definitions rest.isEmpty out) rest

/-- Writes the items of a list. -/
def writeItems (definitions : List Definition) (out : String) : List (List Block) → String
  | [] => out
  | item :: rest =>
    let out := out ++ if item.head?.all Block.isPlain then "<li>" else "<li>\n"
    writeItems definitions (writeBlocks definitions out item ++ "</li>\n") rest

end

/-- Markdown source in HTML. -/
def toHtml (source : String) : String :=
  let d := Document.ofSource source.toList
  writeBlocks d.definitions "" d.blocks

end SmaliTrace.Markdown
