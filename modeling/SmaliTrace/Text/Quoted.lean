import SmaliTrace.Text.Category
import SmaliTrace.Text.Cut
import SmaliTrace.Text.Digit
import SmaliTrace.Text.Octets

/-!
Quoted texts. Writing puts a value between double quotes and escapes what is not printable; reading
takes double-quoted, back-quoted and single-quoted literals.
-/
namespace SmaliTrace.Text

/-- The escape letter of the characters that have one. -/
def escapeLetter? (c : Char) : Option Char :=
  match c.toNat with
  | 0x07 => some 'a'
  | 0x08 => some 'b'
  | 0x0c => some 'f'
  | 0x0a => some 'n'
  | 0x0d => some 'r'
  | 0x09 => some 't'
  | 0x0b => some 'v'
  | _ => none

/-- How a piece is written between double quotes. -/
def escape : Piece → List Char
  | .stray b => '\\' :: 'x' :: hexDigits 2 b.toNat
  | .char c =>
    if c = '"' ∨ c = '\\' then ['\\', c]
    else if isPrintable c then [c]
    else
      match escapeLetter? c with
      | some letter => ['\\', letter]
      | none =>
        let n := c.toNat
        if n < 0x20 ∨ n = 0x7f then '\\' :: 'x' :: hexDigits 2 n
        else if n < 0x10000 then '\\' :: 'u' :: hexDigits 4 n
        else '\\' :: 'U' :: hexDigits 8 n

/-- Pieces between double quotes. -/
def quotePieces (parts : List Piece) : String :=
  String.ofList ('"' :: parts.flatMap escape ++ ['"'])

/-- The text between double quotes, with everything that is not printable escaped. -/
def quote (s : String) : String := quotePieces (s.toList.map .char)

/-- The value between double quotes, with stray bytes escaped. -/
def Octets.quote (v : Octets) : String := quotePieces v.pieces

/-- What an escape or a plain character of a literal stands for: a code point, or the one byte of a
`\x` or octal escape. -/
inductive QuotedUnit where
  | point (c : Char)
  | byte (n : Nat)
deriving DecidableEq, Repr

/-- The bytes that a unit adds to a string value. -/
def QuotedUnit.bytes : QuotedUnit → List UInt8
  | .point c => (Octets.ofString (String.singleton c)).bytes
  | .byte n => [n.toUInt8]

/-- The character that a unit denotes in a character literal. -/
def QuotedUnit.char : QuotedUnit → Char
  | .point c => c
  | .byte n => Char.ofNat n

/-- The number written in the first `width` digits, with the text after them. -/
def readCode? (digit? : Char → Option Nat) (base width : Nat) (s : List Char) :
    Option (Nat × List Char) :=
  if s.length < width then none
  else (digitsValue? digit? base (s.take width)).map fun n => (n, s.drop width)

theorem length_le_of_readCode? {digit? : Char → Option Nat} {base width n : Nat}
    {s rest : List Char} (h : readCode? digit? base width s = some (n, rest)) :
    rest.length ≤ s.length := by
  unfold readCode? at h
  split at h
  · simp at h
  · simp only [Option.map_eq_some_iff, Prod.mk.injEq] at h
    obtain ⟨_, _, _, rfl⟩ := h
    simp

/-- The character that a one-letter escape stands for. -/
def letterEscape? (e : Char) : Option Char :=
  match e with
  | 'a' => some '\x07'
  | 'b' => some '\x08'
  | 'f' => some '\x0c'
  | 'n' => some '\n'
  | 'r' => some '\r'
  | 't' => some '\t'
  | 'v' => some '\x0b'
  | '\\' => some '\\'
  | _ => none

/-- A code point as a unit; surrogates are refused. -/
def pointUnit? (n : Nat) : Option QuotedUnit :=
  if n.isValidChar then some (.point (Char.ofNat n)) else none

/-- A byte as a unit. -/
def byteUnit? (n : Nat) : Option QuotedUnit := if n ≤ 255 then some (.byte n) else none

/-- The unit and the text after it that a code of an escape gives. -/
def codeUnit? (unit? : Nat → Option QuotedUnit) (code : Option (Nat × List Char)) :
    Option (QuotedUnit × List Char) :=
  code.bind fun (n, rest) => (unit? n).map fun unit => (unit, rest)

/-- Reads what follows a backslash. Of the two quotes only the enclosing one may be escaped. -/
def readEscape? (mark : Char) : List Char → Option (QuotedUnit × List Char)
  | [] => none
  | e :: rest =>
    match letterEscape? e with
    | some c => some (.point c, rest)
    | none =>
      if e = '"' ∨ e = '\x27' then
        if e = mark then some (.point e, rest) else none
      else if e = 'x' then codeUnit? byteUnit? (readCode? hexValue? 16 2 rest)
      else if e = 'u' then codeUnit? pointUnit? (readCode? hexValue? 16 4 rest)
      else if e = 'U' then codeUnit? pointUnit? (readCode? hexValue? 16 8 rest)
      else codeUnit? byteUnit? (readCode? octalValue? 8 3 (e :: rest))

/-- Reads one plain or escaped character of a literal in the given quotes. A bare closing quote is
refused. -/
def readUnit? (mark : Char) : List Char → Option (QuotedUnit × List Char)
  | [] => none
  | c :: rest =>
    if c = mark then none
    else if c = '\\' then readEscape? mark rest
    else some (.point c, rest)

theorem length_le_of_codeUnit? {unit? : Nat → Option QuotedUnit} {digit? : Char → Option Nat}
    {base width : Nat} {s rest : List Char} {unit : QuotedUnit}
    (h : codeUnit? unit? (readCode? digit? base width s) = some (unit, rest)) :
    rest.length ≤ s.length := by
  simp only [codeUnit?, Option.bind_eq_some_iff, Option.map_eq_some_iff, Prod.exists,
    Prod.mk.injEq] at h
  obtain ⟨n, r, found, _, _, _, rfl⟩ := h
  exact length_le_of_readCode? found

theorem length_le_of_readEscape? {mark : Char} {s rest : List Char} {unit : QuotedUnit}
    (h : readEscape? mark s = some (unit, rest)) : rest.length ≤ s.length := by
  cases s with
  | nil => simp [readEscape?] at h
  | cons e s =>
    simp only [readEscape?] at h
    split at h
    · simp only [Option.some.injEq, Prod.mk.injEq] at h
      simp [← h.2]
    · repeat' split at h
      · simp only [Option.some.injEq, Prod.mk.injEq] at h
        simp [← h.2]
      · simp at h
      all_goals
        have := length_le_of_codeUnit? h
        simp at this ⊢
        omega

theorem length_lt_of_readUnit? {mark : Char} {s rest : List Char} {unit : QuotedUnit}
    (h : readUnit? mark s = some (unit, rest)) : rest.length < s.length := by
  cases s with
  | nil => simp [readUnit?] at h
  | cons c s =>
    simp only [readUnit?] at h
    repeat' split at h
    · simp at h
    · have := length_le_of_readEscape? h
      simp; omega
    · simp only [Option.some.injEq, Prod.mk.injEq] at h
      simp [← h.2]

/-- Reads the inside of a double-quoted literal up to and including its closing quote; nothing may
follow the quote, and the inside holds no bare line feed. -/
def readInside? (s : List Char) : Option (List QuotedUnit) :=
  match s with
  | [] => none
  | '"' :: rest => if rest.isEmpty then some [] else none
  | '\n' :: _ => none
  | s =>
    match h : readUnit? '"' s with
    | none => none
    | some (unit, rest) =>
      have := length_lt_of_readUnit? h
      (readInside? rest).map (unit :: ·)
termination_by s.length

/-- Reads a literal in double quotes, or in back quotes where only carriage returns are dropped. -/
def unquoteText? : List Char → Option Octets
  | '"' :: rest => (readInside? rest).map fun units => ⟨units.flatMap QuotedUnit.bytes⟩
  | '\x60' :: rest =>
    match cut? ['\x60'] rest with
    | some (inside, []) => some (Octets.ofString (String.ofList (inside.filter (· ≠ '\r'))))
    | _ => none
  | _ => none

end SmaliTrace.Text
