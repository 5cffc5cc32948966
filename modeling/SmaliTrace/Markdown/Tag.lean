import SmaliTrace.Markdown.Character
import SmaliTrace.Text.Cut

/-!
What can stand in angle brackets: an address, or a tag, comment or other mark of HTML.
-/
namespace SmaliTrace.Markdown

/-- A character of the local part of a mail address. -/
def isMailChar (c : Char) : Bool :=
  c.isAlphanum || ".!#$%&'*+/=?^_\x60\x7b|\x7d~-".toList.contains c

/-- The most characters of a label in a domain. -/
def maxLabelSize : Nat := 63

/-- The size of the longest label at the start of a text: letters, digits and hyphens, with no hyphen
at either end. -/
def labelSize (s : List Char) : Nat :=
  let label := (s.takeWhile fun c => c.isAlphanum || c = '-').take maxLabelSize
  if label.head? = some '-' then 0 else (Text.dropEndWhile (· = '-') label).length

/-- The size of the longest domain at the start of a text: labels with points between them. -/
def domainSize (s : List Char) : Nat :=
  match s with
  | [] => 0
  | c :: rest =>
    match labelSize (c :: rest) with
    | 0 => 0
    | size + 1 =>
      if rest[size]? = some '.' then
        match domainSize (rest.drop (size + 1)) with
        | 0 => size + 1
        | further => size + 2 + further
      else size + 1
termination_by s.length

/-- The size of the mail address at the start of a text. -/
def mailSize? (s : List Char) : Option Nat :=
  let name := (s.takeWhile isMailChar).length
  if name = 0 || s[name]? ≠ some '@' then none
  else
    match domainSize (s.drop (name + 1)) with
    | 0 => none
    | domain => some (name + 1 + domain)

/-- The most characters of a scheme. -/
def maxSchemeSize : Nat := 33

/-- The size of the address with a scheme at the start of a text. -/
def schemeSize? (s : List Char) : Option Nat :=
  let scheme := s.takeWhile fun c => c.isAlphanum || c = '.' || c = '+' || c = '-'
  let size := scheme.length
  if !(s.head?.any Char.isAlpha) || size = 1 || maxSchemeSize < size || s[size]? ≠ some ':' then none
  else
    let rest := (s.drop (size + 1)).takeWhile fun c => ' ' < c && c ≠ '<' && c ≠ '>'
    some (size + 1 + rest.length)

/-- Reads an address after the bracket that opens it, and whether it is a mail address. -/
def address? (s : List Char) : Option (Bool × List Char × List Char) := do
  let (mail, size) ←
    match mailSize? s with
    | some size => some (true, size)
    | none => (schemeSize? s).map fun size => (false, size)
  if s[size]? = some '>' then some (mail, s.take size, s.drop (size + 1)) else none

/-- A space within a tag. -/
def isTagSpace (c : Char) : Bool := c = ' ' || c = '\t' || c = '\n' || c = '\x0c' || c = '\r'

/-- Where a tag is being read: in its name, between attributes, in or after the name of an attribute,
before, in or after its value, or after the slash at the end. -/
inductive TagPlace where
  | name
  | gap
  | key
  | afterKey
  | beforeValue
  | value
  | quoted (mark : Char)
  | afterQuoted
  | slash
deriving DecidableEq, Repr

/-- The first character of the name of an attribute. -/
def startsKey (c : Char) : Bool := c.isAlpha || c = '_' || c = ':'

/-- A further character of the name of an attribute. -/
def continuesKey (c : Char) : Bool := c.isAlphanum || ":._-".toList.contains c

/-- A character of a value without quotes. -/
def isValueChar (c : Char) : Bool := ' ' < c && !"\"'=<>\x60".toList.contains c

/-- The place after a space, a slash, or a character that `next?` tells about. -/
def TagPlace.orNext (space : TagPlace) (next? : Char → Option TagPlace) (c : Char) : Option TagPlace :=
  if isTagSpace c then some space else if c = '/' then some .slash else next? c

/-- The place after the next character of a tag, which does not end it. -/
def TagPlace.next? (c : Char) : TagPlace → Option TagPlace
  | name => orNext .gap (fun c => if c.isAlphanum || c = '-' then some .name else none) c
  | gap => orNext .gap (fun c => if startsKey c then some .key else none) c
  | key =>
    orNext .afterKey (fun c =>
      if c = '=' then some .beforeValue
      else if continuesKey c then some .key
      else none) c
  | afterKey =>
    orNext .afterKey (fun c =>
      if c = '=' then some .beforeValue
      else if startsKey c then some .key
      else none) c
  | beforeValue =>
    if isTagSpace c then some .beforeValue
    else if c = '"' || c = '\'' then some (.quoted c)
    else if isValueChar c then some .value
    else none
  | value => if isTagSpace c then some .gap else if isValueChar c then some .value else none
  | quoted mark => some (if c = mark then .afterQuoted else .quoted mark)
  | afterQuoted => orNext .gap (fun _ => none) c
  | slash => none

/-- A tag can end at the place. -/
def TagPlace.canEnd : TagPlace → Bool
  | beforeValue | quoted _ => false
  | _ => true

/-- The text after the rest of an opening tag. -/
def afterTag? (place : TagPlace) : List Char → Option (List Char)
  | [] => none
  | c :: rest =>
    if c = '>' && place.canEnd then some rest
    else
      match place.next? c with
      | some place => afterTag? place rest
      | none => none

/-- The text after an opening tag, whose bracket was passed. -/
def afterOpenTag? : List Char → Option (List Char)
  | c :: rest => if c.isAlpha then afterTag? .name rest else none
  | [] => none

/-- The text after a closing tag, whose bracket and slash were passed. -/
def afterCloseTag? (s : List Char) : Option (List Char) :=
  if s.head?.any Char.isAlpha then
    match (s.dropWhile fun c => c.isAlphanum || c = '-').dropWhile isTagSpace with
    | '>' :: rest => some rest
    | _ => none
  else none

/-- The text after the first occurrence of a pattern. -/
def after? (pat : String) (s : List Char) : Option (List Char) := (Text.cut? pat.toList s).map (·.2)

/-- The text after the first occurrence of a pattern on the first line. -/
def afterOnLine? (pat : String) (s : List Char) : Option (List Char) :=
  let (line, rest) := splitLine s
  (after? pat line).map (· ++ rest)

/-- The text after a comment, whose opening mark was passed. A comment does not start with `>` or
`->`, and two hyphens stand at its end only. -/
def afterComment? (s : List Char) : Option (List Char) :=
  if Text.startsWith "-->" s then some (s.drop 3)
  else if Text.startsWith ">" s || Text.startsWith "->" s || Text.startsWith "--" s then none
  else
    match after? "--" s with
    | some ('>' :: rest) => some rest
    | _ => none

/-- The text after a declaration, whose opening mark was passed. -/
def afterDeclaration? (s : List Char) : Option (List Char) :=
  if ((s.dropWhile Char.isUpper).head?.any isTagSpace) then afterOnLine? ">" s else none

/-- The text after a mark of HTML, whose bracket was passed. -/
def afterMark? (s : List Char) : Option (List Char) :=
  match s with
  | '/' :: rest => afterCloseTag? rest
  | '?' :: rest => afterOnLine? "?>" rest
  | '!' :: rest =>
    if Text.startsWith "--" rest then afterComment? (rest.drop 2)
    else if rest.head?.any Char.isUpper then afterDeclaration? rest
    else if Text.startsWith "[CDATA[" rest then after? "]]>" (rest.drop 7)
    else none
  | s => afterOpenTag? s

/-- The names of the tags that make blocks. -/
def blockTags : List String := [
  "address", "article", "aside", "base", "basefont", "blockquote", "body", "caption", "center",
  "col", "colgroup", "dd", "details", "dialog", "dir", "div", "dl", "dt", "fieldset", "figcaption",
  "figure", "footer", "form", "frame", "frameset", "h1", "h2", "h3", "h4", "h5", "h6", "head",
  "header", "hr", "html", "iframe", "legend", "li", "link", "main", "menu", "menuitem", "meta",
  "nav", "noframes", "ol", "optgroup", "option", "p", "param", "section", "source", "summary",
  "table", "tbody", "td", "tfoot", "th", "thead", "title", "tr", "track", "ul"]

/-- The names of the tags with raw text in them. -/
def rawTags : List String := ["script", "pre", "style"]

/-- How a block of HTML ends: at a line with one of the marks, or before a blank line. -/
inductive HtmlEnd where
  | marks (texts : List String)
  | blankLine
deriving DecidableEq, Repr

/-- The line holds what ends the block. -/
def HtmlEnd.isIn (line : List Char) : HtmlEnd → Bool
  | marks texts => texts.any (Text.contains · (line.map Char.toLower))
  | blankLine => isBlank line

/-- A line without its line feed. -/
def withoutLineFeed (line : List Char) : List Char := line.takeWhile (· ≠ '\n')

/-- The name of a tag ends before the text. -/
def endsTagName (s : List Char) : Bool :=
  match s with
  | [] => true
  | c :: _ => isTagSpace c || c = '>' || Text.startsWith "/>" s

/-- The block of HTML that a line opens, whose first bracket was passed. A tag that makes no block is
one only if it is alone on the line, and not after the text of a paragraph. -/
def htmlBlock? (afterText : Bool) (line : List Char) : Option HtmlEnd :=
  let s := withoutLineFeed line
  let inner := Text.without "/" s
  let closes := s.head? == some '/'
  let nameChars := inner.takeWhile Char.isAlphanum
  let name := String.ofList (nameChars.map Char.toLower)
  let ended := endsTagName (inner.drop nameChars.length)
  if !closes && ended && rawTags.contains name then some (.marks (rawTags.map ("</" ++ · ++ ">")))
  else if Text.startsWith "!--" s then some (.marks ["-->"])
  else if Text.startsWith "?" s then some (.marks ["?>"])
  else if s.head? = some '!' && s[1]?.any Char.isUpper then some (.marks [">"])
  else if Text.startsWith "![CDATA[" s then some (.marks ["]]>"])
  else if ended && blockTags.contains name then some .blankLine
  else if afterText || rawTags.contains name then none
  else
    match if closes then afterCloseTag? inner else afterOpenTag? s with
    | some rest => if isBlank rest then some .blankLine else none
    | none => none

end SmaliTrace.Markdown
