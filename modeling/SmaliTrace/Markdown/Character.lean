import SmaliTrace.Text.Category
import SmaliTrace.Text.Cut

/-!
The characters of Markdown source: spaces, punctuation, indentation, and the search for the mark that
closes a text in brackets or quotes.
-/
namespace SmaliTrace.Markdown

/-- The ASCII spaces, line feed included. -/
def isSpace (c : Char) : Bool := c = ' ' || '\t' ≤ c && c ≤ '\r'

/-- The ASCII punctuation. A backslash before it says that it stands for itself. -/
def isPunctuation (c : Char) : Bool :=
  '!' ≤ c && c ≤ '/' || ':' ≤ c && c ≤ '@' || '[' ≤ c && c ≤ '\x60' || '\x7b' ≤ c && c ≤ '~'

/-- The category is one of those of punctuation. -/
def isPunctuationCategory : Text.Category → Bool
  | .connectorPunctuation | .dashPunctuation | .openPunctuation | .closePunctuation => true
  | .initialPunctuation | .finalPunctuation | .otherPunctuation => true
  | _ => false

/-- The intervals of punctuation, ascending. -/
def punctuationIntervals : Array (Nat × Nat) :=
  let categories := Text.Category.all.filter isPunctuationCategory
  (Text.Intervals.union (categories.map Text.Category.intervals)).toArray

/-- Punctuation beside a run of stars or underscores, ASCII or not. -/
def isMark (c : Char) : Bool :=
  isPunctuation c || Text.inSorted punctuationIntervals c.toNat 0 punctuationIntervals.size

/-- The text has spaces only. -/
def isBlank (s : List Char) : Bool := s.all isSpace

/-- The text without the spaces at its start. -/
def trimStart (s : List Char) : List Char := s.dropWhile isSpace

/-- The text without the spaces at its end. -/
def trimEnd (s : List Char) : List Char := Text.dropEndWhile isSpace s

/-- The text without the spaces at either end. -/
def trim (s : List Char) : List Char := trimEnd (trimStart s)

/-- The first line of a text with its line feed, and the rest. -/
def splitLine : List Char → List Char × List Char
  | [] => ([], [])
  | c :: rest =>
    if c = '\n' then ([c], rest)
    else
      let (line, after) := splitLine rest
      (c :: line, after)

/-- The lines of a text with their line feeds; `line` holds the characters of the open line, last
first. -/
def linesFrom (line : List Char) : List Char → List (List Char)
  | [] => if line.isEmpty then [] else [line.reverse]
  | c :: rest =>
    if c = '\n' then (c :: line).reverse :: linesFrom [] rest else linesFrom (c :: line) rest

/-- The width of a tab that starts at the column: it ends at the next multiple of four. -/
def tabWidth (column : Nat) : Nat := 4 - column % 4

/-- The width of the blanks at the start of a text at the column. -/
def indentation (column : Nat) : List Char → Nat
  | ' ' :: rest => indentation (column + 1) rest + 1
  | '\t' :: rest => indentation (column + tabWidth column) rest + tabWidth column
  | _ => 0

/-- The character is one of those that indent. -/
def indents (c : Char) : Bool := c = ' ' || c = '\t'

/-- How an opening mark within a text in brackets is taken. -/
inductive Nesting where
  | nested
  | refused
deriving DecidableEq, Repr

/-- The text before and after the mark that closes it. `depth` counts the marks that were opened
within, and `passed` holds the text so far, last character first. Punctuation after a backslash is no
mark. -/
def closing? (opener closer : Char) (nesting : Nesting) (depth : Nat) (passed : List Char) :
    List Char → Option (List Char × List Char)
  | [] => none
  | [c] => if c = closer && depth = 0 then some (passed.reverse, []) else none
  | c :: d :: rest =>
    if c = '\\' && isPunctuation d then closing? opener closer nesting depth (d :: c :: passed) rest
    else if c = closer then
      match depth with
      | 0 => some (passed.reverse, d :: rest)
      | depth + 1 => closing? opener closer nesting depth (c :: passed) (d :: rest)
    else if c = opener then
      match nesting with
      | .nested => closing? opener closer nesting (depth + 1) (c :: passed) (d :: rest)
      | .refused => none
    else closing? opener closer nesting depth (c :: passed) (d :: rest)

end SmaliTrace.Markdown
