import SmaliTrace.Markdown.Plain
import SmaliTrace.Regex.Fold
import SmaliTrace.Text.Octets

/-!
Links: where they lead to, the definitions that labels refer to, and addresses in HTML.
-/
namespace SmaliTrace.Markdown

/-- Where a link leads to, and the title of that place. Both are source. -/
structure Target where
  destination : List Char
  title : Option (List Char) := none
deriving DecidableEq, Repr, Inhabited

/-- The text before and after the mark that closes it, which can stand on a later line. Each line is
searched on its own, and `passed` holds the lines before. -/
def closingOver? (opener closer : Char) (nesting : Nesting) (passed : List Char) :
    List (List Char) → Option (List Char × List Char)
  | [] => none
  | line :: lines =>
    match closing? opener closer nesting 0 [] line with
    | some (before, after) => some (passed ++ before, after ++ lines.flatten)
    | none => closingOver? opener closer nesting (passed ++ line) lines

/-- Cuts a destination off that no brackets enclose: it ends at a space, or at a parenthesis that it
did not open. -/
def bareDestination (depth : Nat) (passed : List Char) : List Char → List Char × List Char
  | [] => (passed.reverse, [])
  | [c] =>
    if isSpace c || c = ')' && depth = 0 then (passed.reverse, [c]) else ((c :: passed).reverse, [])
  | c :: d :: rest =>
    if c = '\\' && isPunctuation d then bareDestination depth (d :: c :: passed) rest
    else if c = '(' then bareDestination (depth + 1) (c :: passed) (d :: rest)
    else if c = ')' then
      match depth with
      | 0 => (passed.reverse, c :: d :: rest)
      | depth + 1 => bareDestination depth (c :: passed) (d :: rest)
    else if isSpace c then (passed.reverse, c :: d :: rest)
    else bareDestination depth (c :: passed) (d :: rest)

/-- Reads a destination: on one line in angle brackets, or bare and not empty. -/
def destination? : List Char → Option (List Char × List Char)
  | '<' :: rest =>
    let (line, after) := splitLine rest
    (closing? '>' '>' .nested 0 [] line).map fun (destination, rest) => (destination, rest ++ after)
  | s =>
    let (destination, rest) := bareDestination 0 [] s
    if destination.isEmpty then none else some (destination, rest)

/-- The mark that closes the title that starts with the character. -/
def titleCloser? : Char → Option Char
  | '"' => some '"'
  | '\'' => some '\''
  | '(' => some ')'
  | _ => none

/-- Reads a title. -/
def title? : List Char → Option (List Char × List Char)
  | [] => none
  | c :: rest => do
    let closer ← titleCloser? c
    closingOver? c closer .nested [] (linesFrom [] rest)

/-- Reads a target after the parenthesis that opens it, and passes the one that closes it. -/
def target? (s : List Char) : Option (Target × List Char) :=
  match trimStart s with
  | ')' :: rest => some (⟨[], none⟩, rest)
  | s => do
    let (destination, rest) ← destination? s
    match trimStart rest with
    | ')' :: rest => some (⟨destination, none⟩, rest)
    | s => do
      let (title, rest) ← title? s
      match trimStart rest with
      | ')' :: rest => some (⟨destination, some title⟩, rest)
      | _ => none

/-- The text with one blank for every run of spaces. -/
def collapseSpaces : List Char → List Char
  | [] => []
  | [c] => [if isSpace c then ' ' else c]
  | c :: d :: rest =>
    if isSpace c then
      if isSpace d then collapseSpaces (d :: rest) else ' ' :: collapseSpaces (d :: rest)
    else c :: collapseSpaces (d :: rest)

/-- What labels are compared by: the letters without their case and the runs of spaces without their
length. -/
def labelKey (label : List Char) : List Nat :=
  (collapseSpaces (trim label)).map fun c => Regex.foldKey c.toNat

/-- A target under a label. -/
structure Definition where
  key : List Nat
  target : Target
deriving DecidableEq, Repr

/-- The target that a label refers to. The first definition of a label counts. -/
def lookup? (definitions : List Definition) (label : List Char) : Option Target :=
  (definitions.find? (·.key = labelKey label)).map (·.target)

/-- The number of line feeds in a text. -/
def lineFeeds (s : List Char) : Nat := s.countP (· = '\n')

/-- Reads a definition at the start of a paragraph: a label, a colon, a destination, and a title that
nothing follows on its line. Counts the lines of the definition after its first. A title on a line of
its own is none if something follows it. -/
def definition? (s : List Char) : Option (Definition × Nat) :=
  match s with
  | '[' :: rest => do
    let (label, rest) ← closingOver? '[' ']' .refused [] (linesFrom [] rest)
    match rest with
    | ':' :: rest =>
      if isBlank label then none
      else do
        let (destination, rest) ← destination? (trimStart rest)
        let key := labelKey label
        let lines := lineFeeds s - lineFeeds rest
        let endsLine := isBlank (splitLine rest).1
        let after := trimStart rest
        if (after.head?.bind titleCloser?).isNone then
          if endsLine then some (⟨key, ⟨destination, none⟩⟩, lines) else none
        else if after.length = rest.length then none
        else do
          let (title, rest) ← title? after
          if isBlank (splitLine rest).1 then
            some (⟨key, ⟨destination, some title⟩⟩, lineFeeds s - lineFeeds rest)
          else if endsLine then some (⟨key, ⟨destination, none⟩⟩, lines - 1)
          else none
    | _ => none
  | _ => none

/-- The definitions at the start of a paragraph, and the lines after them. -/
def splitDefinitions (lines : List (List Char)) : List Definition × List (List Char) :=
  match lines with
  | [] => ([], [])
  | line :: rest =>
    match definition? (line :: rest).flatten with
    | none => ([], line :: rest)
    | some (d, further) =>
      let (definitions, remaining) := splitDefinitions (rest.drop further)
      (d :: definitions, remaining)
termination_by lines.length

/-- The kinds of pictures that an address can hold. -/
def pictureKinds : List String := ["png;", "gif;", "jpeg;", "webp;"]

/-- A browser could run the destination or read a file for it. -/
def isDangerous (destination : List Char) : Bool :=
  if Text.startsWith "data:image/" destination then
    !pictureKinds.any (Text.startsWith · (destination.drop 11))
  else
    ["javascript:", "vbscript:", "file:", "data:"].any (Text.startsWith · destination)

/-- The characters that stand for themselves in an address. -/
def isAddressChar (c : Char) : Bool :=
  c.isAlphanum || "!#$&'()*+,-./:;=?@_~".toList.contains c

/-- A byte in an address. -/
def percentByte (b : UInt8) : List Char := '%' :: (Text.hexDigits 2 b.toNat).map Char.toUpper

/-- A character in an address that does not stand for itself. If there is no other in the address, its
last byte stays as it is. -/
def percentChar (alone : Bool) (c : Char) : List Char :=
  let bytes := (Text.Octets.ofString c.toString).bytes
  if c = ' ' then "%20".toList
  else if alone then
    bytes.dropLast.flatMap percentByte ++ [if bytes.length = 1 then c else replacement]
  else bytes.flatMap percentByte

/-- An address with the characters of addresses only. A percent sign before a hexadecimal digit begins
a byte that is written so already. -/
def encodeAddress (alone : Bool) : List Char → List Char
  | [] => []
  | '%' :: c :: d :: rest =>
    if (Text.hexValue? c).isSome then '%' :: c :: d :: encodeAddress alone rest
    else percentChar alone '%' ++ encodeAddress alone (c :: d :: rest)
  | c :: rest => (if isAddressChar c then [c] else percentChar alone c) ++ encodeAddress alone rest

/-- An address in HTML. -/
def addressHtml (address : List Char) : String :=
  escape (encodeAddress (address.length = 1) address)

/-- The destination of a link in HTML. A dangerous one is left out. -/
def Target.address (t : Target) : String :=
  if isDangerous t.destination then "" else addressHtml (resolved t.destination)

/-- The title of a link in HTML. -/
def Target.titleHtml (t : Target) : String :=
  match t.title with
  | none => ""
  | some title => " title=\"" ++ text title ++ "\""

end SmaliTrace.Markdown
