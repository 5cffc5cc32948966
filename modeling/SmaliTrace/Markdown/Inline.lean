import SmaliTrace.Markdown.Link

/-!
The parts of a line of text, and runs of stars and underscores that emphasize what stands between two
of them.
-/
namespace SmaliTrace.Markdown

/-- A part of a text. -/
inductive Inline where
  | text (source : List Char)
  | lineBreak (hard : Bool)
  | code (content : List Char)
  | emphasis (strong : Bool) (content : List Inline)
  | link (target : Target) (content : List Inline)
  | image (target : Target) (content : List Inline)
  | address (mail : Bool) (content : List Char)
  | tag
deriving Repr, Inhabited

/-- A run of stars or underscores. `size` is its size in the source and `left` the number of its
characters that emphasize nothing yet. -/
structure Run where
  char : Char
  size : Nat
  left : Nat
  canOpen : Bool
  canClose : Bool
deriving DecidableEq, Repr

/-- A part of a text that is being read. -/
inductive Piece where
  | inline (part : Inline)
  | run (r : Run)
deriving Repr, Inhabited

/-- A run between two characters. It opens before a text and closes after one, and an underscore does
neither within a word. -/
def Run.between (char : Char) (size : Nat) (before after : Char) : Run :=
  let left := !Text.isBlank after && (!isMark after || Text.isBlank before || isMark before)
  let right := !Text.isBlank before && (!isMark before || Text.isBlank after || isMark after)
  if char = '_' then
    ⟨char, size, size, left && (!right || isMark before), right && (!left || isMark after)⟩
  else ⟨char, size, size, left, right⟩

/-- The number of characters that an opening and a closing run use for one emphasis; none if one of
them could do both, and their sizes do not fit. -/
def Run.used (opener closer : Run) : Nat :=
  if (opener.canClose || closer.canOpen) && (opener.size + closer.size) % 3 = 0 &&
      closer.size % 3 ≠ 0 then 0
  else if 2 ≤ opener.left && 2 ≤ closer.left then 2
  else 1

/-- The run after an emphasis that used some of its characters. -/
def Run.use (r : Run) (count : Nat) : Run := { r with left := r.left - count }

/-- A piece for good: what is left of a run is text. -/
def Piece.settle : Piece → Inline
  | inline part => part
  | run r => .text (List.replicate r.left r.char)

/-- The piece is a run. -/
def Piece.isRun : Piece → Bool
  | run _ => true
  | inline _ => false

/-- An emphasis that a closing run makes: what stands in it, the run that opens it, the number of
characters used, and the pieces before it. -/
structure Match where
  content : List Piece
  opener : Run
  used : Nat
  before : List Piece

/-- The last of the pieces that opens what the run closes. The pieces are given last first, and
`passed` are those behind them. -/
def Run.opener? (closer : Run) (passed : List Piece) : List Piece → Option Match
  | [] => none
  | .run r :: before =>
    if r.canOpen && r.char = closer.char && 0 < r.used closer then
      some ⟨passed, r, r.used closer, before⟩
    else closer.opener? (.run r :: passed) before
  | .inline part :: before => closer.opener? (.inline part :: passed) before

/-- Puts a run behind the pieces, last first, and makes the emphases that it closes. Every emphasis
uses one of its characters at least, so that `count`, their number, counts the steps. -/
def closeRun (pieces : List Piece) (closer : Run) : (count : Nat) → List Piece
  | 0 => .run closer :: pieces
  | count + 1 =>
    match closer.opener? [] pieces with
    | none => .run closer :: pieces
    | some m =>
      let part := Piece.inline (.emphasis (m.used = 2) (m.content.map Piece.settle))
      let rest := m.opener.use m.used
      let pieces := part :: if rest.left = 0 then m.before else .run rest :: m.before
      let closer := closer.use m.used
      if closer.left = 0 then pieces else closeRun pieces closer count

/-- Puts a piece behind the pieces, last first. -/
def addPiece (pieces : List Piece) : Piece → List Piece
  | .run r => if r.canClose then closeRun pieces r r.left else .run r :: pieces
  | .inline part => .inline part :: pieces

/-- The parts that the pieces make, in order. -/
def emphasize (pieces : List Piece) : List Inline :=
  ((pieces.foldl addPiece []).map Piece.settle).reverse

/-- Settles the first `count` runs. -/
def settleRuns (count : Nat) : List Piece → List Piece
  | [] => []
  | .run r :: rest =>
    match count with
    | 0 => .run r :: rest
    | count + 1 => .inline (Piece.run r).settle :: settleRuns count rest
  | .inline part :: rest => .inline part :: settleRuns count rest

end SmaliTrace.Markdown
