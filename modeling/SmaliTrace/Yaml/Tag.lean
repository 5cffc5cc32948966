import SmaliTrace.Text.Digit
import SmaliTrace.Yaml.Source

/-!
Anchors, tags and directives of a YAML text.
-/
namespace SmaliTrace.Yaml

/-- The characters of names: Latin letters, digits, the underscore and the dash. -/
def isNameChar (c : Char) : Bool := c.isAlphanum || c = '_' || c = '-'

/-- The other characters of tags. -/
def isTagMark (c : Char) : Bool := ";/?:@&=+$,.!~*\x27()[]%".toList.contains c

/-- Reads a name, which is followed by a gap or one of a few marks. -/
def name? (m : Mark) (s : List Char) : Option (Lexeme String) :=
  let name := s.takeWhile isNameChar
  let (m, rest) := passWhile isNameChar m s
  let ends := atGap rest || rest.head?.any fun c => "?:,]\x7d%@\x60".toList.contains c
  if name.isEmpty || !ends then none else some ⟨String.ofList name, m, rest⟩

/-- The number of bytes of a character that starts with the byte, zero if none does. -/
def leadWidth (octet : Nat) : Nat :=
  if octet < 0x80 then 1
  else if 0xc0 ≤ octet && octet < 0xe0 then 2
  else if 0xe0 ≤ octet && octet < 0xf0 then 3
  else if 0xf0 ≤ octet && octet < 0xf8 then 4
  else 0

/-- Reads the characters of a tag on; `text` holds those that were read, last first. Bytes are given
by two hexadecimal digits behind a percent sign; `pending` counts those that a character lacks. -/
def tagText? (text : List Char) (pending : Nat) (m : Mark) :
    List Char → Option (Lexeme (List Char))
  | [] => if pending = 0 then some ⟨text.reverse, m, []⟩ else none
  | '%' :: a :: b :: rest =>
    match Text.hexValue? a, Text.hexValue? b with
    | some high, some low =>
      let octet := high * 16 + low
      if pending = 0 then
        match leadWidth octet with
        | 0 => none
        | width + 1 => tagText? (Char.ofNat octet :: text) width (m.right 3) rest
      else if 0x80 ≤ octet && octet < 0xc0 then
        tagText? (Char.ofNat octet :: text) (pending - 1) (m.right 3) rest
      else none
    | _, _ => none
  | c :: rest =>
    if pending ≠ 0 || c = '%' then none
    else if isNameChar c || isTagMark c then tagText? (c :: text) 0 m.right rest
    else some ⟨text.reverse, m, c :: rest⟩

/-- Reads the handle of a tag: an exclamation mark, or a name between two. -/
def tagHandle? (m : Mark) : List Char → Option (Lexeme (List Char))
  | '!' :: s =>
    let name := s.takeWhile isNameChar
    let (m, rest) := passWhile isNameChar m.right s
    match rest with
    | '!' :: rest => some ⟨'!' :: name ++ ['!'], m.right, rest⟩
    | rest => some ⟨'!' :: name, m, rest⟩
  | _ => none

/-- The handle is more than an exclamation mark, and ends with one. -/
def isClosedHandle (handle : List Char) : Bool := 1 < handle.length && handle.getLast? = some '!'

/-- Reads a tag: in angle brackets, behind a handle, or behind an exclamation mark. -/
def tag? (m : Mark) (s : List Char) : Option (Lexeme Token) := do
  let ⟨token, m, rest⟩ : Lexeme Token ←
    match s with
    | '!' :: '<' :: s =>
      match tagText? [] 0 (m.right 2) s with
      | some ⟨c :: text, m, '>' :: rest⟩ =>
        some ⟨.tag "" (String.ofList (c :: text)), m.right, rest⟩
      | _ => none
    | s => do
      let handle ← tagHandle? m s
      let suffix ← tagText? [] 0 handle.mark handle.rest
      if isClosedHandle handle.value then
        if suffix.value.isEmpty then none
        else
          some ⟨.tag (String.ofList handle.value) (String.ofList suffix.value), suffix.mark,
            suffix.rest⟩
      else
        let text := handle.value.drop 1 ++ suffix.value
        if text.isEmpty then some ⟨.tag "" "!", suffix.mark, suffix.rest⟩
        else some ⟨.tag "!" (String.ofList text), suffix.mark, suffix.rest⟩
  if atGap rest then some ⟨token, m, rest⟩ else none

/-- Reads a number of one or two digits. -/
def versionNumber? (m : Mark) (s : List Char) : Option (Lexeme Nat) :=
  let digits := s.takeWhile Char.isDigit
  let (m, rest) := passWhile Char.isDigit m s
  if digits.isEmpty || 2 < digits.length then none
  else some ⟨digits.foldl (fun n c => n * 10 + (c.toNat - 48)) 0, m, rest⟩

/-- Reads the two numbers of a version. -/
def version? (m : Mark) (s : List Char) : Option (Lexeme Token) := do
  let major ← versionNumber? m s
  match major.rest with
  | '.' :: rest =>
    let minor ← versionNumber? major.mark.right rest
    some ⟨.version major.value minor.value, minor.mark, minor.rest⟩
  | _ => none

/-- Reads a handle and what it stands for. -/
def handleMeaning? (m : Mark) (s : List Char) : Option (Lexeme Token) := do
  let handle ← tagHandle? m s
  if !isClosedHandle handle.value && handle.value ≠ ['!'] then none
  else if !(handle.rest.head?.any isBlank) then none
  else
    let (m, rest) := passWhile isBlank handle.mark handle.rest
    let expansion ← tagText? [] 0 m rest
    if expansion.value.isEmpty || !atGap expansion.rest then none
    else
      some ⟨.tagHandle (String.ofList handle.value) (String.ofList expansion.value), expansion.mark,
        expansion.rest⟩

/-- Reads a directive after its percent sign, to the end of its line. -/
def directive? (m : Mark) (s : List Char) : Option (Lexeme Token) := do
  let name := String.ofList (s.takeWhile isNameChar)
  let (m, rest) := passWhile isNameChar m s
  if !atGap rest then none
  else
    let (m, rest) := passWhile isBlank m rest
    let found ←
      match name with
      | "YAML" => version? m rest
      | "TAG" => handleMeaning? m rest
      | _ => none
    let (m, rest) ← passLine? found.mark found.rest
    some ⟨found.value, m, rest⟩

end SmaliTrace.Yaml
