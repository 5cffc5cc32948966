/-!
Values as byte sequences. A quoted literal can denote bytes that are no UTF-8 text, so a value is
kept as its bytes; it is read piece by piece as characters and stray bytes.
-/
namespace SmaliTrace.Text

/-- A value: a byte sequence that is usually, but not always, the UTF-8 form of a text. -/
structure Octets where
  bytes : List UInt8
deriving DecidableEq, Hashable, Repr, Inhabited

/-- A part of a value: a character in UTF-8 form, or a byte that belongs to no such form. -/
inductive Piece where
  | char (c : Char)
  | stray (byte : UInt8)
deriving DecidableEq, Repr

namespace Octets

/-- The UTF-8 form of a text. -/
def ofString (s : String) : Octets := ⟨s.toUTF8.toList⟩

instance : Coe String Octets := ⟨ofString⟩

/-- The payload of a continuation byte. -/
def continuation? (b : UInt8) : Option Nat :=
  if 0x80 ≤ b.toNat ∧ b.toNat ≤ 0xbf then some (b.toNat - 0x80) else none

/-- The character made of the lead bits `lead` and the continuation bytes, if they are such bytes and
the shortest form of a character. -/
def assemble? (lead : Nat) (least : Nat) (tail : List UInt8) : Option Char := do
  let parts ← tail.mapM continuation?
  let code := parts.foldl (fun n part => n * 64 + part) lead
  if least ≤ code ∧ code.isValidChar then some (Char.ofNat code) else none

/-- The character at the head of the bytes, with the bytes after it, if a whole UTF-8 form stands
there. -/
def lead? : List UInt8 → Option Char
  | [] => none
  | b :: rest =>
    let n := b.toNat
    if n < 0x80 then some (Char.ofNat n)
    else if 0xc2 ≤ n ∧ n ≤ 0xdf ∧ 1 ≤ rest.length then assemble? (n - 0xc0) 0x80 (rest.take 1)
    else if 0xe0 ≤ n ∧ n ≤ 0xef ∧ 2 ≤ rest.length then assemble? (n - 0xe0) 0x800 (rest.take 2)
    else if 0xf0 ≤ n ∧ n ≤ 0xf4 ∧ 3 ≤ rest.length then assemble? (n - 0xf0) 0x10000 (rest.take 3)
    else none

/-- The pieces of a byte sequence; `skip` bytes at its head belong to the character before them. -/
def piecesAfter (skip : Nat) : List UInt8 → List Piece
  | [] => []
  | b :: rest =>
    match skip with
    | skip + 1 => piecesAfter skip rest
    | 0 =>
      match lead? (b :: rest) with
      | some c => .char c :: piecesAfter (c.utf8Size - 1) rest
      | none => .stray b :: piecesAfter 0 rest

/-- The value as characters and stray bytes. -/
def pieces (v : Octets) : List Piece := piecesAfter 0 v.bytes

/-- The character shown for a piece: a stray byte becomes the replacement character. -/
def Piece.shown : Piece → Char
  | .char c => c
  | .stray _ => '\ufffd'

/-- The value as a text, with every stray byte replaced by U+FFFD. -/
def toText (v : Octets) : String := String.ofList (v.pieces.map Piece.shown)

end Octets

end SmaliTrace.Text
