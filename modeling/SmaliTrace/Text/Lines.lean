/-!
The lines of a text. A line ends at a line feed, and one carriage return before it is dropped. A reader that keeps one
line at a time has room for so many bytes, and does not come past a line that has more.
-/
namespace SmaliTrace.Text

/-- The line without one carriage return at its end; `line` is given last character first. -/
def closeLine (line : List Char) : List Char :=
  match line with
  | '\r' :: rest => rest.reverse
  | _ => line.reverse

/-- What `close` makes of the lines of the text, `line` holding the characters of the open line, last first. -/
def linesAfter {α : Type} (close : List Char → α) (line : List Char) : List Char → List α
  | [] => if line.isEmpty then [] else [close line]
  | c :: rest =>
    if c = '\n' then close line :: linesAfter close [] rest else linesAfter close (c :: line) rest

/-- The lines of the text; nothing follows a final line feed. -/
def lines (s : List Char) : List (List Char) := linesAfter closeLine [] s

/-- A line with the bytes it takes up before its line feed, a dropped carriage return among them. -/
structure Line where
  text : List Char
  size : Nat
deriving DecidableEq

/-- The bytes that the characters take up. -/
def byteCount (s : List Char) : Nat := s.foldl (fun n c => n + c.utf8Size) 0

/-- A line that takes up no more than its characters. -/
def Line.ofText (s : List Char) : Line := ⟨s, byteCount s⟩

/-- The lines of the text with the bytes they take up. -/
def sizedLines (s : List Char) : List Line := linesAfter (fun line => ⟨closeLine line, byteCount line⟩) [] s

/-- The room for one line and its line feed, in bytes. -/
def lineRoom : Nat := 16 * 1024 * 1024

/-- There is room for the line. -/
def Line.fits (l : Line) : Bool := l.size < lineRoom

/-- There is room for each line of the text. -/
def Fits (s : List Char) : Prop := ∀ line ∈ sizedLines s, line.fits = true

instance (s : List Char) : Decidable (Fits s) := inferInstanceAs (Decidable (∀ _ ∈ _, _))

end SmaliTrace.Text
