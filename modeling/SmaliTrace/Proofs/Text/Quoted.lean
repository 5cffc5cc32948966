import Mathlib.Algebra.Group.Nat.Defs
import SmaliTrace.Proofs.Text.Octets
import SmaliTrace.Text.Quoted

/-!
The spellings of the characters of a literal, and the two functions about them: reading takes exactly one spelling off
the text, and what is written for a value between double quotes is read as that value.
-/
namespace SmaliTrace.Text

variable {mark : Char} {s rest digits : List Char} {unit : QuotedUnit}

/-- The ways to write one unit of a literal in the given quotes. -/
inductive Spelling (mark : Char) : List Char → QuotedUnit → Prop
  | plain {c : Char} (notMark : c ≠ mark) (notBackslash : c ≠ '\\') : Spelling mark [c] (.point c)
  | letter {e c : Char} (isLetter : letterEscape? e = some c) : Spelling mark ['\\', e] (.point c)
  | quote (isQuote : mark = '"' ∨ mark = '\x27') : Spelling mark ['\\', mark] (.point mark)
  | hex {digits : List Char} {n : Nat} (width : digits.length = 2) (value : digitsValue? hexValue? 16 digits = some n)
      (isByte : n ≤ 255) : Spelling mark ('\\' :: 'x' :: digits) (.byte n)
  | short {digits : List Char} {n : Nat} (width : digits.length = 4)
      (value : digitsValue? hexValue? 16 digits = some n) (valid : n.isValidChar) :
      Spelling mark ('\\' :: 'u' :: digits) (.point (Char.ofNat n))
  | long {digits : List Char} {n : Nat} (width : digits.length = 8)
      (value : digitsValue? hexValue? 16 digits = some n) (valid : n.isValidChar) :
      Spelling mark ('\\' :: 'U' :: digits) (.point (Char.ofNat n))
  | octal {digits : List Char} {n : Nat} (width : digits.length = 3)
      (value : digitsValue? octalValue? 8 digits = some n) (isByte : n ≤ 255) : Spelling mark ('\\' :: digits) (.byte n)

/-! ### Reading -/

theorem readCode?_eq_some_iff {digit? : Char → Option Nat} {base width n : Nat} :
    readCode? digit? base width s = some (n, rest) ↔
      ∃ digits, s = digits ++ rest ∧ digits.length = width ∧ digitsValue? digit? base digits = some n := by
  unfold readCode?
  split
  · next short =>
    refine iff_of_false (by simp) ?_
    rintro ⟨digits, rfl, width, -⟩
    simp at short
    omega
  · next enough =>
    constructor
    · intro read
      obtain ⟨n, value, same⟩ := Option.map_eq_some_iff.mp read
      cases same
      exact ⟨_, (List.take_append_drop width s).symm, by simp; omega, value⟩
    · rintro ⟨digits, rfl, rfl, value⟩
      rw [List.take_left, List.drop_left, value]
      rfl

theorem codeUnit?_eq_some_iff {unit? : Nat → Option QuotedUnit} {digit? : Char → Option Nat} {base width : Nat} :
    codeUnit? unit? (readCode? digit? base width s) = some (unit, rest) ↔ ∃ digits n, s = digits ++ rest ∧
      digits.length = width ∧ digitsValue? digit? base digits = some n ∧ unit? n = some unit := by
  constructor
  · intro read
    obtain ⟨⟨n, rest'⟩, code, read⟩ := Option.bind_eq_some_iff.mp read
    obtain ⟨unit', isUnit, same⟩ := Option.map_eq_some_iff.mp read
    cases same
    obtain ⟨digits, isText, width, value⟩ := readCode?_eq_some_iff.mp code
    exact ⟨digits, n, isText, width, value, isUnit⟩
  · rintro ⟨digits, n, isText, width, value, isUnit⟩
    rw [readCode?_eq_some_iff.mpr ⟨digits, isText, width, value⟩, codeUnit?, Option.bind_some]
    exact Option.map_eq_some_iff.mpr ⟨unit, isUnit, rfl⟩

theorem byteUnit?_eq_some_iff {n : Nat} : byteUnit? n = some unit ↔ n ≤ 255 ∧ unit = .byte n := by
  unfold byteUnit?
  split <;> simp [*, eq_comm]

theorem pointUnit?_eq_some_iff {n : Nat} :
    pointUnit? n = some unit ↔ n.isValidChar ∧ unit = .point (Char.ofNat n) := by
  unfold pointUnit?
  split <;> simp [*, eq_comm]

theorem isSome_of_digitsValue? {digit? : Char → Option Nat} {base n : Nat}
    (value : digitsValue? digit? base digits = some n) : ∀ d ∈ digits, (digit? d).isSome := by
  unfold digitsValue? at value
  generalize 0 = m at value
  induction digits generalizing m with
  | nil => simp
  | cons d digits ih =>
    obtain ⟨first, isFirst, value⟩ := Option.bind_eq_some_iff.mp value
    obtain ⟨v, isDigit, -⟩ := Option.map_eq_some_iff.mp isFirst
    exact List.forall_mem_cons.mpr ⟨Option.isSome_of_eq_some isDigit, ih first value⟩

/-- An octal digit is no letter of an escape and no quote. -/
theorem octal_isDigit {d : Char} (isDigit : (octalValue? d).isSome) :
    letterEscape? d = none ∧ d ≠ '"' ∧ d ≠ '\x27' ∧ d ≠ 'x' ∧ d ≠ 'u' ∧ d ≠ 'U' := by
  have range : 48 ≤ d.toNat ∧ d.toNat ≤ 55 := by
    by_contra outside
    simp [octalValue?, outside] at isDigit
  have apart {e : Char} (other : e.toNat < 48 ∨ 55 < e.toNat) : d ≠ e := by
    rintro rfl
    omega
  refine ⟨?_, apart (by decide), apart (by decide), apart (by decide), apart (by decide), apart (by decide)⟩
  unfold letterEscape?
  split
  all_goals first
    | rfl
    | simp at range

/-- Reading behind a backslash takes the rest of a spelling off the text. -/
theorem readEscape?_eq_some_iff (isQuote : mark = '"' ∨ mark = '\x27') :
    readEscape? mark s = some (unit, rest) ↔ ∃ body, s = body ++ rest ∧ Spelling mark ('\\' :: body) unit := by
  constructor
  · intro read
    cases s with
    | nil => cases read
    | cons e s =>
      rw [readEscape?] at read
      split at read
      · next c isLetter =>
        cases read
        exact ⟨_, rfl, .letter isLetter⟩
      split at read
      · split at read
        · next isMark =>
          cases read
          subst isMark
          exact ⟨[e], rfl, .quote isQuote⟩
        · cases read
      split at read
      · next isX =>
        obtain ⟨digits, n, rfl, width, value, isUnit⟩ := codeUnit?_eq_some_iff.mp read
        obtain ⟨isByte, rfl⟩ := byteUnit?_eq_some_iff.mp isUnit
        exact ⟨_, isX ▸ rfl, .hex width value isByte⟩
      split at read
      · next isU =>
        obtain ⟨digits, n, rfl, width, value, isUnit⟩ := codeUnit?_eq_some_iff.mp read
        obtain ⟨valid, rfl⟩ := pointUnit?_eq_some_iff.mp isUnit
        exact ⟨_, isU ▸ rfl, .short width value valid⟩
      split at read
      · next isU =>
        obtain ⟨digits, n, rfl, width, value, isUnit⟩ := codeUnit?_eq_some_iff.mp read
        obtain ⟨valid, rfl⟩ := pointUnit?_eq_some_iff.mp isUnit
        exact ⟨_, isU ▸ rfl, .long width value valid⟩
      · obtain ⟨digits, n, isText, width, value, isUnit⟩ := codeUnit?_eq_some_iff.mp read
        obtain ⟨isByte, rfl⟩ := byteUnit?_eq_some_iff.mp isUnit
        exact ⟨digits, isText, .octal width value isByte⟩
  · rintro ⟨body, rfl, spelled⟩
    cases spelled with
    | plain notMark notBackslash => exact absurd rfl notBackslash
    | letter isLetter =>
      rw [List.cons_append, readEscape?, isLetter]
      rfl
    | quote => rcases isQuote with rfl | rfl <;> rfl
    | hex width value isByte =>
      exact codeUnit?_eq_some_iff.mpr ⟨_, _, rfl, width, value, byteUnit?_eq_some_iff.mpr ⟨isByte, rfl⟩⟩
    | short width value valid =>
      exact codeUnit?_eq_some_iff.mpr ⟨_, _, rfl, width, value, pointUnit?_eq_some_iff.mpr ⟨valid, rfl⟩⟩
    | long width value valid =>
      exact codeUnit?_eq_some_iff.mpr ⟨_, _, rfl, width, value, pointUnit?_eq_some_iff.mpr ⟨valid, rfl⟩⟩
    | octal width value isByte =>
      cases body with
      | nil => cases width
      | cons d digits =>
        obtain ⟨noLetter, notQuote, notMark, notX, notU, notLong⟩ := octal_isDigit (isSome_of_digitsValue? value d List.mem_cons_self)
        rw [List.cons_append, readEscape?, noLetter]
        simp only [notQuote, notMark, notX, notU, notLong, or_self, if_false]
        exact codeUnit?_eq_some_iff.mpr ⟨_, _, rfl, width, value, byteUnit?_eq_some_iff.mpr ⟨isByte, rfl⟩⟩

/-- Reading takes a spelling off the text, and there is no other way to read it. -/
theorem readUnit?_eq_some_iff (isQuote : mark = '"' ∨ mark = '\x27') :
    readUnit? mark s = some (unit, rest) ↔ ∃ spelling, s = spelling ++ rest ∧ Spelling mark spelling unit := by
  have notMark : '\\' ≠ mark := by rcases isQuote with rfl | rfl <;> decide
  constructor
  · intro read
    cases s with
    | nil => cases read
    | cons c s =>
      rw [readUnit?] at read
      split at read
      · cases read
      split at read
      · next isBackslash =>
        subst isBackslash
        obtain ⟨body, rfl, spelled⟩ := (readEscape?_eq_some_iff isQuote).mp read
        exact ⟨_, rfl, spelled⟩
      · next notMark notBackslash =>
        cases read
        exact ⟨[c], rfl, .plain notMark notBackslash⟩
  · rintro ⟨spelling, rfl, spelled⟩
    by_cases escaped : ∃ body, spelling = '\\' :: body
    · obtain ⟨body, rfl⟩ := escaped
      rw [List.cons_append, readUnit?, if_neg notMark, if_pos rfl]
      exact (readEscape?_eq_some_iff isQuote).mpr ⟨body, rfl, spelled⟩
    · cases spelled with
      | plain notMark notBackslash => rw [List.singleton_append, readUnit?, if_neg notMark, if_neg notBackslash]
      | _ => exact absurd ⟨_, rfl⟩ escaped

/-! ### Writing -/

theorem digitsValue?_append {digit? : Char → Option Nat} {base : Nat} (digits : List Char) (d : Char) :
    digitsValue? digit? base (digits ++ [d]) =
      (digitsValue? digit? base digits).bind fun n => (digit? d).map (n * base + ·) := by
  simp [digitsValue?, List.foldlM_append]

theorem hexValue?_hexDigit {n : Nat} (bound : n < 16) : hexValue? (hexDigit n) = some n := by
  revert n
  decide

theorem length_hexDigits (width n : Nat) : (hexDigits width n).length = width := by
  induction width generalizing n with
  | zero => rfl
  | succ width ih => rw [hexDigits, List.length_append, ih, List.length_singleton]

/-- The digits of a number are read as the number. -/
theorem digitsValue?_hexDigits {width n : Nat} (bound : n < 16 ^ width) :
    digitsValue? hexValue? 16 (hexDigits width n) = some n := by
  induction width generalizing n with
  | zero =>
    obtain rfl : n = 0 := by omega
    rfl
  | succ width ih =>
    have quotient : n / 16 < 16 ^ width := Nat.div_lt_of_lt_mul (by rwa [Nat.pow_succ, Nat.mul_comm] at bound)
    rw [hexDigits, digitsValue?_append, ih quotient, hexValue?_hexDigit (Nat.mod_lt n (by decide))]
    exact congrArg some (Nat.div_add_mod' n 16)

theorem letterEscape?_of_escapeLetter? {c letter : Char} (isLetter : escapeLetter? c = some letter) :
    letterEscape? letter = some c := by
  rw [← Char.ofNat_toNat c]
  unfold escapeLetter? at isLetter
  split at isLetter
  case h_8 => cases isLetter
  all_goals
    next code =>
      rw [code]
      cases isLetter
      rfl

theorem bytes_point (c : Char) : (QuotedUnit.point c).bytes = String.utf8EncodeChar c := by
  rw [QuotedUnit.bytes, Octets.bytes_ofString]
  simp

/-- What is written for a piece is a spelling of its bytes. -/
theorem exists_spelling_of_escape (piece : Piece) :
    ∃ unit, Spelling '"' (escape piece) unit ∧ unit.bytes = piece.bytes := by
  cases piece with
  | stray b =>
    have isByte : b.toNat < 256 := b.toNat_lt
    refine ⟨.byte b.toNat, .hex (length_hexDigits 2 _) (digitsValue?_hexDigits (by omega)) (by omega), ?_⟩
    exact congrArg (fun b => [b]) UInt8.ofNat_toNat
  | char c =>
    have valid : c.toNat.isValidChar := c.valid
    have bound : c.toNat < 0x110000 := by rcases valid with low | high <;> omega
    unfold escape
    dsimp only
    split
    · next marked =>
      refine ⟨.point c, ?_, bytes_point c⟩
      rcases marked with rfl | rfl
      · exact .quote (.inl rfl)
      · exact .letter rfl
    · next unmarked =>
      obtain ⟨notMark, notBackslash⟩ := not_or.mp unmarked
      split
      · exact ⟨.point c, .plain notMark notBackslash, bytes_point c⟩
      split
      · next letter isLetter => exact ⟨.point c, .letter (letterEscape?_of_escapeLetter? isLetter), bytes_point c⟩
      split
      · next control =>
        refine ⟨.byte c.toNat, .hex (length_hexDigits 2 _) (digitsValue?_hexDigits (by omega)) (by omega), ?_⟩
        have ascii : c.val.toNat ≤ 127 := by
          change c.toNat ≤ 127
          omega
        rw [Piece.bytes, String.utf8EncodeChar, if_pos ascii]
        rfl
      split
      · next short =>
        have spelled : Spelling '"' _ _ := .short (length_hexDigits 4 _) (digitsValue?_hexDigits short) valid
        exact ⟨_, spelled, by rw [Char.ofNat_toNat, bytes_point]; rfl⟩
      · have spelled : Spelling '"' _ _ := .long (length_hexDigits 8 _) (digitsValue?_hexDigits (by omega)) valid
        exact ⟨_, spelled, by rw [Char.ofNat_toNat, bytes_point]; rfl⟩

/-- A spelling starts with a backslash, or it is a single other character. -/
theorem Spelling.eq_cons {spelling : List Char} (spelled : Spelling mark spelling unit) :
    ∃ c tail, spelling = c :: tail ∧ (c = '\\' ∨ c ≠ mark ∧ c ≠ '\\' ∧ tail = []) := by
  cases spelled with
  | plain notMark notBackslash => exact ⟨_, _, rfl, .inr ⟨notMark, notBackslash, rfl⟩⟩
  | _ => exact ⟨_, _, rfl, .inl rfl⟩

/-- Inside a literal one spelling is read after another; a line feed is none there. -/
theorem readInside?_append {spelling : List Char} (spelled : Spelling '"' spelling unit) (notBreak : spelling ≠ ['\n']) :
    readInside? (spelling ++ rest) = (readInside? rest).map (unit :: ·) := by
  have read : readUnit? '"' (spelling ++ rest) = some (unit, rest) :=
    (readUnit?_eq_some_iff (.inl rfl)).mpr ⟨spelling, rfl, spelled⟩
  obtain ⟨c, tail, rfl, first⟩ := spelled.eq_cons
  have notMark : c ≠ '"' := by rcases first with rfl | ⟨notMark, -, -⟩ <;> [decide; exact notMark]
  have notBreak : c ≠ '\n' := by
    rintro rfl
    rcases first with same | ⟨-, -, rfl⟩ <;> [cases same; exact notBreak rfl]
  rw [List.cons_append] at read ⊢
  rw [readInside?.eq_def]
  split
  · next isNil => cases isNil
  · next same => exact absurd (List.head_eq_of_cons_eq same) notMark
  · next same => exact absurd (List.head_eq_of_cons_eq same) notBreak
  · split
    · next failed =>
      rw [read] at failed
      cases failed
    · next found =>
      rw [read] at found
      cases found
      rfl

/-- A literal ends with its closing quote. -/
theorem exists_append_of_readInside? {units : List QuotedUnit} (read : readInside? s = some units) :
    ∃ front, s = front ++ ['"'] := by
  fun_induction readInside? s generalizing units with
  | case1 | case3 | case4 | case5 => cases read
  | case2 rest isEnd => exact ⟨[], by rw [List.isEmpty_iff.mp isEnd]; rfl⟩
  | case6 s _ _ _ unit rest found _ ih =>
    obtain ⟨units, read, -⟩ := Option.map_eq_some_iff.mp read
    obtain ⟨spelling, rfl, -⟩ := (readUnit?_eq_some_iff (.inl rfl)).mp found
    obtain ⟨front, rfl⟩ := ih read
    exact ⟨spelling ++ front, (List.append_assoc ..).symm⟩

theorem escape_ne_lineFeed (piece : Piece) : escape piece ≠ ['\n'] := by
  intro same
  cases piece with
  | stray b => cases same
  | char c =>
    unfold escape at same
    dsimp only at same
    repeat' split at same
    case isFalse.isTrue printable =>
      obtain rfl : c = '\n' := by simpa using same
      exact absurd printable (by decide)
    all_goals simp at same

/-- What is written for a value between double quotes is read as the value. -/
theorem unquoteText?_quote (v : Octets) : unquoteText? v.quote.toList = some v := by
  have inside (parts : List Piece) : ∃ units, readInside? (parts.flatMap escape ++ ['"']) = some units ∧
      units.flatMap QuotedUnit.bytes = parts.flatMap Piece.bytes := by
    induction parts with
    | nil => exact ⟨[], by rw [List.flatMap_nil, List.nil_append, readInside?]; rfl, rfl⟩
    | cons part parts ih =>
      obtain ⟨units, read, bytes⟩ := ih
      obtain ⟨unit, spelled, bytes'⟩ := exists_spelling_of_escape part
      refine ⟨unit :: units, ?_, by rw [List.flatMap_cons, List.flatMap_cons, bytes, bytes']⟩
      rw [List.flatMap_cons, List.append_assoc, readInside?_append spelled (escape_ne_lineFeed part), read]
      rfl
  obtain ⟨units, read, bytes⟩ := inside v.pieces
  rw [Octets.quote, quotePieces, String.toList_ofList, List.cons_append, unquoteText?, read, Option.map_some, bytes,
    Octets.flatMap_pieces]

end SmaliTrace.Text
