import Mathlib.Data.List.TakeWhile
import SmaliTrace.Proofs.Number.Digits
import SmaliTrace.Proofs.Text.Cut
import SmaliTrace.Smali.Literal

/-!
Integer literals. What a literal denotes is its sign times its magnitude, in decimal or in hexadecimal digits. The
reader takes the magnitude for an unsigned word and makes a signed one of it, so that a number between the two ranges
comes out as another one. What was read is shown in decimal, unless its digits are taken for those of a floating-point
number.
-/
namespace SmaliTrace.Smali.Literal
open SmaliTrace.Number (IsWord wrap wordCount decimalValue?)
open SmaliTrace.Text (Octets hexValue? digitsValue?)

variable {s : List Char} {n m v : Int}

/-! ### What a literal denotes -/

/-- A sign and the unit with it. There may be a plus behind a minus. -/
inductive Sign : List Char → Int → Prop
  | unsigned : Sign [] 1
  | plus : Sign ['+'] 1
  | minus : Sign ['-'] (-1)
  | minusPlus : Sign ['-', '+'] (-1)

/-- Decimal digits, or hexadecimal ones behind their mark, and their number. -/
inductive Magnitude : List Char → Nat → Prop
  | decimal {digits : List Char} {n : Nat} (filled : digits ≠ []) (value : digitsValue? decimalValue? 10 digits = some n) :
      Magnitude digits n
  | hex {mark : Char} {digits : List Char} {n : Nat} (isMark : mark = 'x' ∨ mark = 'X') (filled : digits ≠ [])
      (value : digitsValue? hexValue? 16 digits = some n) : Magnitude ('0' :: mark :: digits) n

/-- The suffixes that say how large a number is. -/
def isSize (c : Char) : Bool := c = 't' || c = 's' || c = 'L'

theorem isSize_iff {c : Char} : isSize c = true ↔ c = 't' ∨ c = 's' ∨ c = 'L' := by simp [isSize, or_assoc]

/-- The text is an integer literal for the number. -/
inductive Denotes : List Char → Int → Prop
  | mk {sign digits sizes : List Char} {unit : Int} {n : Nat} (signed : Sign sign unit) (magnitude : Magnitude digits n)
      (sized : ∀ c ∈ sizes, isSize c = true) : Denotes (sign ++ digits ++ sizes) (unit * n)

/-! ### The characters of a literal -/

theorem Sign.mem_signs {unit : Int} (signed : Sign s unit) : s ∈ [[], ['+'], ['-'], ['-', '+']] := by
  cases signed <;> simp

theorem Sign.mem {unit : Int} (signed : Sign s unit) : ∀ c ∈ s, c = '-' ∨ c = '+' := by
  cases signed <;> simp

theorem hexValue?_of_decimalValue? {c : Char} (isDigit : (decimalValue? c).isSome) : (hexValue? c).isSome := by
  unfold decimalValue? at isDigit
  split at isDigit
  · next range => rw [hexValue?, if_pos range]; rfl
  · cases isDigit

namespace Magnitude

theorem filled {n : Nat} (magnitude : Magnitude s n) : s ≠ [] := by
  cases magnitude with
  | decimal filled _ => exact filled
  | hex => exact List.cons_ne_nil _ _

/-- A magnitude has only digits and the mark of hexadecimal ones. -/
theorem mem {n : Nat} (magnitude : Magnitude s n) : ∀ c ∈ s, (hexValue? c).isSome ∨ c = 'x' ∨ c = 'X' := by
  cases magnitude with
  | decimal _ value =>
    exact fun c inside => .inl (hexValue?_of_decimalValue? (Text.isSome_of_digitsValue? value c inside))
  | hex isMark _ value =>
    intro c inside
    rcases List.mem_cons.mp inside with rfl | inside
    · exact .inl (by decide)
    rcases List.mem_cons.mp inside with rfl | inside
    · exact .inr isMark
    · exact .inl (Text.isSome_of_digitsValue? value c inside)

/-- No other character stands in a magnitude. -/
theorem not_mem {n : Nat} (magnitude : Magnitude s n) {c : Char} (other : hexValue? c = none) (noMark : c ≠ 'x' ∧ c ≠ 'X') :
    c ∉ s := fun inside => by
  rcases magnitude.mem c inside with isDigit | isMark
  · rw [other] at isDigit
    cases isDigit
  · exact isMark.elim noMark.1 noMark.2

/-- The mark is no decimal digit. -/
theorem not_decimal {mark : Char} {digits : List Char} {n : Nat} (isMark : mark = 'x' ∨ mark = 'X')
    (value : digitsValue? decimalValue? 10 ('0' :: mark :: digits) = some n) : False := by
  have isDigit := Text.isSome_of_digitsValue? value mark (by simp)
  rcases isMark with rfl | rfl <;> exact absurd isDigit (by decide)

/-- A magnitude is read if it is an unsigned word. -/
theorem readMagnitude_eq_ok_iff {n : Nat} : readMagnitude s = .ok n ↔ Magnitude s n ∧ n < wordCount := by
  have hexadecimal {mark : Char} {digits : List Char} (isMark : mark = 'x' ∨ mark = 'X') :
      Number.readHex digits = .ok n ↔ Magnitude ('0' :: mark :: digits) n ∧ n < wordCount := by
    rw [Number.readHex_eq_ok_iff, ← and_assoc]
    refine and_congr_left fun _ => ⟨fun ⟨filled, value⟩ => .hex isMark filled value, fun magnitude => ?_⟩
    cases magnitude with
    | decimal _ value => exact (not_decimal isMark value).elim
    | hex _ filled value => exact ⟨filled, value⟩
  unfold readMagnitude
  split
  · exact hexadecimal (.inl rfl)
  · exact hexadecimal (.inr rfl)
  · next noSmall noCapital =>
    rw [Number.readUnsigned_eq_ok_iff, ← and_assoc]
    refine and_congr_left fun _ => ⟨fun ⟨filled, value⟩ => .decimal filled value, fun magnitude => ?_⟩
    cases magnitude with
    | decimal filled value => exact ⟨filled, value⟩
    | @hex mark digits _ isMark =>
      rcases isMark with rfl | rfl
      · exact (noSmall digits rfl).elim
      · exact (noCapital digits rfl).elim

theorem unique {n n' : Nat} (magnitude : Magnitude s n) (magnitude' : Magnitude s n') : n = n' := by
  cases magnitude with
  | decimal _ value =>
    cases magnitude' with
    | decimal _ value' => exact Option.some.inj (value.symm.trans value')
    | hex isMark => exact (not_decimal isMark value).elim
  | hex isMark _ value =>
    cases magnitude' with
    | hex _ _ value' => exact Option.some.inj (value.symm.trans value')
    | decimal _ value' => exact (not_decimal isMark value').elim

end Magnitude

/-! ### The parts of a literal -/

/-- The literal without its suffixes. -/
def body (s : List Char) : List Char := Text.dropEndWhile isSize s

/-- The magnitude of a literal: its body without signs. -/
def magnitudeOf (s : List Char) : List Char := Text.without "+" (Text.without "-" (body s))

/-- The number with the sign of the literal. -/
def withSign (s : List Char) (n : Nat) : Int := if Text.startsWith "-" (body s) then -(n : Int) else n

theorem readInteger_eq (s : List Char) : readInteger s =
    match readMagnitude (magnitudeOf s) with
    | .error _ => fail s .notAnInteger
    | .ok n => .ok (wrap (withSign s n)) := rfl

theorem exists_body_append (s : List Char) : ∃ sizes, s = body s ++ sizes ∧ ∀ c ∈ sizes, isSize c = true := by
  refine ⟨(s.reverse.takeWhile isSize).reverse, ?_, ?_⟩
  · rw [body, Text.dropEndWhile, ← List.reverse_append, List.takeWhile_append_dropWhile, List.reverse_reverse]
  · intro c inside
    exact List.mem_takeWhile_imp (List.mem_reverse.mp inside)

/-- The suffixes end where the last digit stands. -/
theorem body_append {sizes : List Char} (filled : s ≠ []) (ends : ∀ c ∈ s, isSize c = false)
    (sized : ∀ c ∈ sizes, isSize c = true) : body (s ++ sizes) = s := by
  have last : isSize (s.getLast filled) = false := ends _ (List.getLast_mem filled)
  rw [← List.dropLast_concat_getLast filled] at *
  rw [body, Text.dropEndWhile, List.reverse_append, List.dropWhile_append_of_pos (by simpa using sized)]
  simp [last]

theorem toList_minus : "-".toList = ['-'] := String.toList_ofList

theorem toList_plus : "+".toList = ['+'] := String.toList_ofList

/-- A body is a sign and its magnitude, which does not start with another sign. -/
theorem parts_of_sign {sign digits : List Char} {unit : Int} (signed : Sign sign unit) (isBody : body s = sign ++ digits)
    (noMinus : digits.head? ≠ some '-') (noPlus : digits.head? ≠ some '+') :
    magnitudeOf s = digits ∧ ∀ n, withSign s n = unit * n := by
  obtain ⟨noMinus', minus⟩ := Text.without_eq_self toList_minus noMinus
  obtain ⟨-, plus⟩ := Text.without_eq_self toList_plus noPlus
  unfold magnitudeOf withSign
  rw [isBody]
  cases signed with
  | unsigned => simp [noMinus', minus, plus]
  | plus =>
    obtain ⟨noMinus', minus⟩ := Text.without_eq_self (s := '+' :: digits) toList_minus (by simp)
    simp [noMinus', minus, Text.without_cons toList_plus]
  | minus => simp [Text.startsWith_cons toList_minus, Text.without_cons toList_minus, plus]
  | minusPlus =>
    simp [Text.startsWith_cons toList_minus, Text.without_cons toList_minus, Text.without_cons toList_plus]

/-- Any body is a sign and what is left when it is taken away. -/
theorem exists_sign (s : List Char) :
    ∃ sign unit, Sign sign unit ∧ body s = sign ++ magnitudeOf s ∧ ∀ n, withSign s n = unit * n := by
  unfold magnitudeOf withSign
  by_cases minus : ∃ rest, body s = '-' :: rest
  · obtain ⟨rest, isBody⟩ := minus
    rw [isBody, Text.startsWith_cons toList_minus, Text.without_cons toList_minus]
    by_cases plus : ∃ digits, rest = '+' :: digits
    · obtain ⟨digits, rfl⟩ := plus
      rw [Text.without_cons toList_plus]
      exact ⟨_, _, .minusPlus, rfl, by simp⟩
    · rw [(Text.without_eq_self toList_plus fun first => plus (List.head?_eq_some_iff.mp first)).2]
      exact ⟨_, _, .minus, rfl, by simp⟩
  · obtain ⟨unsigned, same⟩ := Text.without_eq_self toList_minus fun first => minus (List.head?_eq_some_iff.mp first)
    rw [unsigned, same]
    by_cases plus : ∃ digits, body s = '+' :: digits
    · obtain ⟨digits, isBody⟩ := plus
      rw [isBody, Text.without_cons toList_plus]
      exact ⟨_, _, .plus, rfl, by simp⟩
    · rw [(Text.without_eq_self toList_plus fun first => plus (List.head?_eq_some_iff.mp first)).2]
      exact ⟨_, _, .unsigned, rfl, by simp⟩

/-- What a literal denotes is its magnitude with its sign. -/
theorem denotes_iff : Denotes s n ↔ ∃ m, Magnitude (magnitudeOf s) m ∧ n = withSign s m := by
  constructor
  · rintro ⟨signed, magnitude, sized⟩
    next sign digits sizes unit m =>
    have noSize : ∀ c ∈ sign ++ digits, isSize c = false := by
      intro c inside
      rcases List.mem_append.mp inside with inside | inside
      · rcases signed.mem c inside with rfl | rfl <;> decide
      · refine Bool.eq_false_iff.mpr fun isSuffix => ?_
        rcases isSize_iff.mp isSuffix with rfl | rfl | rfl <;> exact magnitude.not_mem (by decide) (by decide) inside
    have isBody := body_append (by simp [magnitude.filled]) noSize sized
    have first (c : Char) (other : hexValue? c = none) (noMark : c ≠ 'x' ∧ c ≠ 'X') : digits.head? ≠ some c :=
      fun isFirst => magnitude.not_mem other noMark (List.mem_of_mem_head? isFirst)
    obtain ⟨isMagnitude, isSigned⟩ :=
      parts_of_sign signed isBody (first '-' (by decide) (by decide)) (first '+' (by decide) (by decide))
    refine ⟨m, ?_, (isSigned m).symm⟩
    rw [isMagnitude]
    exact magnitude
  · rintro ⟨m, magnitude, rfl⟩
    obtain ⟨sign, unit, signed, isBody, isSigned⟩ := exists_sign s
    obtain ⟨sizes, isText, sized⟩ := exists_body_append s
    have denotes := Denotes.mk signed magnitude sized
    rwa [← isBody, ← isText, ← isSigned] at denotes

theorem natAbs_withSign (s : List Char) (n : Nat) : (withSign s n).natAbs = n := by
  unfold withSign
  split <;> omega

namespace Denotes

theorem filled (denotes : Denotes s n) : s ≠ [] := by
  obtain ⟨-, magnitude, -⟩ := denotes
  simp [magnitude.filled]

theorem unique (denotes : Denotes s n) (denotes' : Denotes s m) : n = m := by
  obtain ⟨k, magnitude, rfl⟩ := denotes_iff.mp denotes
  obtain ⟨k', magnitude', rfl⟩ := denotes_iff.mp denotes'
  rw [magnitude.unique magnitude']

/-- A literal has digits, marks, signs and suffixes only. -/
theorem mem (denotes : Denotes s n) :
    ∀ c ∈ s, (hexValue? c).isSome ∨ c ∈ ['x', 'X', '-', '+', 't', 's', 'L'] := by
  obtain ⟨signed, magnitude, sized⟩ := denotes
  intro c inside
  rcases List.mem_append.mp inside with inside | inside
  · rcases List.mem_append.mp inside with inside | inside
    · exact .inr (by rcases signed.mem c inside with rfl | rfl <;> decide)
    · exact (magnitude.mem c inside).imp_right fun isMark => by rcases isMark with rfl | rfl <;> decide
  · exact .inr (by rcases isSize_iff.mp (sized c inside) with rfl | rfl | rfl <;> decide)

theorem not_mem (denotes : Denotes s n) {c : Char} (other : hexValue? c = none)
    (noMark : c ∉ ['x', 'X', '-', '+', 't', 's', 'L']) : c ∉ s := fun inside => by
  rcases denotes.mem c inside with isDigit | isMark
  · rw [other] at isDigit
    cases isDigit
  · exact noMark isMark

end Denotes

/-! ### What is read -/

/-- A literal is read if its magnitude is an unsigned word, as the signed word that its number becomes. -/
theorem readInteger_of_denotes (denotes : Denotes s n) :
    readInteger s = if n.natAbs < wordCount then .ok (wrap n) else fail s .notAnInteger := by
  obtain ⟨m, magnitude, rfl⟩ := denotes_iff.mp denotes
  rw [readInteger_eq, natAbs_withSign]
  split
  · next e read =>
    rw [if_neg]
    intro fits
    rw [Magnitude.readMagnitude_eq_ok_iff.mpr ⟨magnitude, fits⟩] at read
    cases read
  · next m' read =>
    obtain ⟨magnitude', fits⟩ := Magnitude.readMagnitude_eq_ok_iff.mp read
    obtain rfl := magnitude.unique magnitude'
    rw [if_pos fits]

/-- Nothing else is read. -/
theorem exists_denotes_of_readInteger (read : readInteger s = .ok v) : ∃ n, Denotes s n := by
  rw [readInteger_eq] at read
  split at read
  · cases read
  · next m isMagnitude =>
    exact ⟨_, denotes_iff.mpr ⟨m, (Magnitude.readMagnitude_eq_ok_iff.mp isMagnitude).1, rfl⟩⟩

/-- A number that is no signed word, while its magnitude is an unsigned one, comes out on the other side of zero. -/
theorem wrap_eq_ite (fits : n.natAbs < wordCount) : wrap n = if IsWord n then n else n - n.sign * wordCount := by
  split
  · next isWord => exact Number.wrap_eq isWord.1 isWord.2
  · next noWord =>
    unfold IsWord at noWord
    unfold wrap wordCount at *
    rw [Int.bmod_def]
    rcases Int.lt_or_lt_of_ne (show n ≠ 0 by omega) with negative | positive
    · rw [Int.sign_eq_neg_one_of_neg negative]
      omega
    · rw [Int.sign_eq_one_of_pos positive]
      omega

/-- A spelling of a word is read as the word, whatever its notation, sign and suffix. -/
theorem readInteger_of_isWord (isWord : IsWord n) (denotes : Denotes s n) : readInteger s = .ok n := by
  have fits : n.natAbs < wordCount := by
    unfold IsWord at isWord
    unfold wordCount
    omega
  rw [readInteger_of_denotes denotes, if_pos fits, wrap_eq_ite fits, if_pos isWord]

/-! ### What is shown -/

/-- The letters with which a floating-point number can end. -/
def endsFloat (c : Char) : Bool := c = 'f' || c = 'F' || c = 'd' || c = 'D'

theorem endsFloat_iff {c : Char} : endsFloat c = true ↔ c = 'f' ∨ c = 'F' ∨ c = 'd' ∨ c = 'D' := by
  simp [endsFloat, or_assoc]

/-- The literal is hexadecimal behind a capital mark, and has a letter with which a floating-point number could end. -/
def TakenForFloat (s : List Char) : Prop := 'X' ∈ s ∧ s.any endsFloat = true

instance (s : List Char) : Decidable (TakenForFloat s) := inferInstanceAs (Decidable (_ ∧ _))

/-- A character that is neither a sign nor a suffix stands in the magnitude. -/
theorem mem_magnitude {sign digits sizes : List Char} {unit : Int} {c : Char} (signed : Sign sign unit)
    (sized : ∀ c ∈ sizes, isSize c = true) (noSign : ¬ (c = '-' ∨ c = '+')) (noSize : isSize c = false)
    (inside : c ∈ sign ++ digits ++ sizes) : c ∈ digits := by
  rcases List.mem_append.mp inside with inside | inside
  · exact (List.mem_append.mp inside).resolve_left fun inside => noSign (signed.mem c inside)
  · rw [sized c inside] at noSize
    cases noSize

namespace Denotes

/-- What stands behind a mark. -/
theorem exists_mark (denotes : Denotes s n) {mark : Char} (isMark : mark = 'x' ∨ mark = 'X') (inside : mark ∈ s) :
    ∃ sign unit rest, Sign sign unit ∧ s = sign ++ '0' :: mark :: rest ∧
      ∀ c ∈ rest, (hexValue? c).isSome ∨ isSize c = true := by
  obtain @⟨sign, digits, sizes, unit, n, signed, magnitude, sized⟩ := denotes
  have inside : mark ∈ digits := by
    refine mem_magnitude signed sized ?_ ?_ inside <;> rcases isMark with rfl | rfl <;> decide
  cases magnitude with
  | decimal _ value =>
    have isDigit := Text.isSome_of_digitsValue? value _ inside
    rcases isMark with rfl | rfl <;> exact absurd isDigit (by decide)
  | @hex mark' digits _ isMark' _ value =>
    have same : mark = mark' := by
      rcases List.mem_cons.mp inside with rfl | inside
      · exact absurd isMark (by decide)
      rcases List.mem_cons.mp inside with same | inside
      · exact same
      · have isDigit := Text.isSome_of_digitsValue? value _ inside
        rcases isMark with rfl | rfl <;> exact absurd isDigit (by decide)
    subst same
    refine ⟨sign, unit, digits ++ sizes, signed, by simp, fun c inside => ?_⟩
    exact (List.mem_append.mp inside).imp (Text.isSome_of_digitsValue? value c) (sized c)

/-- A literal has one mark at most. -/
theorem not_both (denotes : Denotes s n) (small : 'x' ∈ s) : 'X' ∉ s := by
  obtain ⟨sign, unit, rest, signed, rfl, others⟩ := denotes.exists_mark (.inl rfl) small
  intro capital
  rcases List.mem_append.mp capital with inside | inside
  · exact absurd (signed.mem _ inside) (by decide)
  · simp only [List.mem_cons, Char.reduceEq, false_or] at inside
    exact absurd (others _ inside) (by decide)

/-- Letters among the digits need a mark. -/
theorem exists_mark_of_letter (denotes : Denotes s n) {c : Char} (letter : endsFloat c = true) (inside : c ∈ s) :
    'x' ∈ s ∨ 'X' ∈ s := by
  replace letter := endsFloat_iff.mp letter
  obtain @⟨sign, digits, sizes, unit, n, signed, magnitude, sized⟩ := denotes
  cases magnitude with
  | hex isMark => rcases isMark with rfl | rfl <;> simp
  | decimal _ value =>
    have inside : c ∈ digits := by
      refine mem_magnitude signed sized ?_ ?_ inside <;> rcases letter with rfl | rfl | rfl | rfl <;> decide
    have isDigit := Text.isSome_of_digitsValue? value c inside
    rcases letter with rfl | rfl | rfl | rfl <;> exact absurd isDigit (by decide)

/-- The guard finds the small mark only. -/
theorem looksFloat_iff (denotes : Denotes s n) : looksFloat s = true ↔ TakenForFloat s := by
  have noPoint : '.' ∉ s := denotes.not_mem (by decide) (by decide)
  have noInfinity : ¬ Text.contains "Infinity" s = true := fun occurs =>
    denotes.not_mem (by decide) (by decide) ((Text.contains_iff.mp occurs).subset (by decide : 'I' ∈ _))
  have noName : ¬ Text.contains "NaN" s = true := fun occurs =>
    denotes.not_mem (by decide) (by decide) ((Text.contains_iff.mp occurs).subset (by decide : 'N' ∈ _))
  have guard : Text.contains "0x" s = true ↔ 'x' ∈ s := by
    refine ⟨fun occurs => (Text.contains_iff.mp occurs).subset (by decide : 'x' ∈ _), fun small => ?_⟩
    obtain ⟨sign, unit, rest, -, rfl, -⟩ := denotes.exists_mark (.inl rfl) small
    exact Text.contains_iff.mpr ⟨sign, rest, by simp⟩
  have isFloat : looksFloat s = true ↔ (∃ c ∈ s, c = '.' ∨ endsFloat c = true) ∧ 'x' ∉ s := by
    simp [looksFloat, endsFloat, noInfinity, noName, ← guard, or_assoc]
  rw [isFloat, TakenForFloat, List.any_eq_true]
  constructor
  · rintro ⟨⟨c, inside, rfl | letter⟩, noMark⟩
    · exact absurd inside noPoint
    · exact ⟨(denotes.exists_mark_of_letter letter inside).resolve_left noMark, c, inside, letter⟩
  · rintro ⟨capital, c, inside, letter⟩
    exact ⟨⟨c, inside, .inr letter⟩, fun small => denotes.not_both small capital⟩

/-- Behind a capital mark there is no floating-point number. -/
theorem readFloat_eq (denotes : Denotes s n) (capital : 'X' ∈ s) : readFloat s = fail s .notAFloat := by
  obtain ⟨sign, unit, rest, signed, rfl, others⟩ := denotes.exists_mark (.inr rfl) capital
  have isEnd : (fun c => (c = 'f' || c = 'F' || c = 'd' || c = 'D' : Bool)) = endsFloat := rfl
  have stays : endsFloat 'X' = false := rfl
  have isBody : Text.dropEndWhile endsFloat (sign ++ '0' :: 'X' :: rest) =
      sign ++ '0' :: 'X' :: Text.dropEndWhile endsFloat rest := by
    simpa using Text.dropEndWhile_append_cons stays (sign ++ ['0']) rest
  have unnamed (name : String) (noMark : 'X' ∉ name.toList) :
      Text.without "-" (sign ++ '0' :: 'X' :: Text.dropEndWhile endsFloat rest) ≠ name.toList := by
    intro same
    exact noMark (same ▸ Text.mem_without toList_minus (by decide) (by simp))
  have noExponent {c : Char} (other : ¬ ((hexValue? c).isSome ∨ isSize c = true)) :
      c ∉ Text.dropEndWhile endsFloat rest :=
    fun inside => other (others c ((Text.dropEndWhile_prefix ..).subset inside))
  have unread := Number.readDouble?_eq_none signed.mem_signs ⟨noExponent (by decide), noExponent (by decide)⟩
  have noInfinity := unnamed "Infinity" (by decide)
  have noName := unnamed "NaN" (by decide)
  simp only [readFloat, isEnd, isBody, if_neg noInfinity, if_neg noName, unread]

/-- A literal is shown as the word that is read from it, unless it is taken for a floating-point number. -/
theorem value_eq {raw : String} (denotes : Denotes raw.toList n) : value raw =
    if TakenForFloat raw.toList then fail raw.toList .notAFloat
    else (readInteger raw.toList).map fun v => Octets.ofString (toString v) := by
  have unnamed (c : Char) {name : String} (other : hexValue? c = none) (noMark : c ∉ ['x', 'X', '-', '+', 't', 's', 'L'])
      (inside : c ∈ name.toList) : raw ≠ name := fun same => denotes.not_mem other noMark (same ▸ inside)
  have isTrue : raw ≠ "true" := unnamed 'r' (by decide) (by decide) (by decide)
  have isFalse : raw ≠ "false" := unnamed 'l' (by decide) (by decide) (by decide)
  have isNull : raw ≠ "null" := unnamed 'n' (by decide) (by decide) (by decide)
  obtain ⟨c, rest, isText⟩ := List.exists_cons_of_ne_nil denotes.filled
  have inside : c ∈ raw.toList := isText ▸ List.mem_cons_self
  have noQuote : c ≠ '"' := by
    rintro rfl
    exact denotes.not_mem (by decide) (by decide) inside
  have noApostrophe : c ≠ '\x27' := by
    rintro rfl
    exact denotes.not_mem (by decide) (by decide) inside
  have number : value raw = if looksFloat raw.toList then (readFloat raw.toList).map fun d => Octets.ofString d.text
      else (readInteger raw.toList).map fun v => Octets.ofString (toString v) := by
    rw [value, isText]
    dsimp only
    rw [if_neg (by simp [noQuote, noApostrophe]), if_neg (by simp [isTrue, isFalse, isNull])]
  rw [number, if_congr denotes.looksFloat_iff rfl rfl]
  refine if_ctx_congr Iff.rfl (fun taken => ?_) fun _ => rfl
  rw [denotes.readFloat_eq taken.1]
  rfl

end Denotes

/-- The decimal form of a number is a literal for it. -/
theorem denotes_toString (n : Int) : Denotes (toString n).toList n := by
  have decimal (m : Nat) : Magnitude (Nat.toDigits 10 m) m :=
    .decimal Nat.toDigits_ne_nil (Number.digitsValue?_toDigits m)
  have unsized : ∀ c ∈ [], isSize c = true := by simp
  cases n with
  | ofNat m =>
    have denotes := Denotes.mk .unsigned (decimal m) unsized
    rwa [List.nil_append, List.append_nil, ← Number.toList_toString_ofNat, Int.one_mul] at denotes
  | negSucc m =>
    have denotes := Denotes.mk .minus (decimal (m + 1)) unsized
    rwa [List.append_nil, List.singleton_append, ← Number.toList_toString_negSucc, Int.neg_one_mul] at denotes

/-- Numbers are known from their decimal forms. -/
theorem toString_injective {n m : Int} (same : toString n = toString m) : n = m :=
  (denotes_toString n).unique (same ▸ denotes_toString m)

/-- An integer literal and what is read from it. What is accepted denotes one number, and a number that is a signed word is
read as itself. Any other number is refused only if its magnitude is no unsigned word either; if it is one, the number
comes out on the other side of zero. So of the numbers that are shown, those that are words are shown as written. -/
theorem readInteger_denoted (raw : String) :
    (∀ v, readInteger raw.toList = .ok v → ∃! n, Denotes raw.toList n) ∧
    ∀ n, Denotes raw.toList n →
      readInteger raw.toList =
        (if IsWord n then .ok n
        else if n.natAbs < wordCount then .ok (n - n.sign * wordCount)
        else fail raw.toList .notAnInteger) ∧
      ∀ shown, value raw = .ok shown → (shown = Octets.ofString (toString n) ↔ IsWord n) := by
  refine ⟨fun v read => ?_, fun n denotes => ⟨?_, fun shown isShown => ?_⟩⟩
  · obtain ⟨n, denotes⟩ := exists_denotes_of_readInteger read
    exact ⟨n, denotes, fun m denotes' => denotes'.unique denotes⟩
  · by_cases isWord : IsWord n
    · rw [readInteger_of_isWord isWord denotes, if_pos isWord]
    · rw [readInteger_of_denotes denotes, if_neg isWord]
      refine if_ctx_congr Iff.rfl (fun fits => ?_) fun _ => rfl
      rw [wrap_eq_ite fits, if_neg isWord]
  · rw [denotes.value_eq] at isShown
    split at isShown
    · cases isShown
    rw [readInteger_of_denotes denotes] at isShown
    split at isShown
    · next fits =>
      cases isShown
      refine ⟨fun same => ?_, fun isWord => ?_⟩
      · have kept := toString_injective (Octets.ofString_injective same)
        exact kept ▸ Number.isWord_wrap n
      · rw [wrap_eq_ite fits, if_pos isWord]
    · cases isShown

/-- The least word is read from hexadecimal digits, and the least magnitude that is no unsigned word is refused. -/
theorem readInteger_denoted_least :
    Denotes "-0x8000000000000000L".toList (-9223372036854775808) ∧
      readInteger "-0x8000000000000000L".toList = .ok (-9223372036854775808) ∧
      (∃! n, Denotes "-0x8000000000000000L".toList n) ∧
      value "-0x8000000000000000L" = .ok (Octets.ofString (toString (-9223372036854775808 : Int))) ∧
      Denotes "18446744073709551616".toList 18446744073709551616 ∧
      readInteger "18446744073709551616".toList = fail "18446744073709551616".toList .notAnInteger := by
  obtain ⟨accepted, denoted⟩ := readInteger_denoted "-0x8000000000000000L"
  obtain ⟨-, denotedLarge⟩ := readInteger_denoted "18446744073709551616"
  have least : Denotes "-0x8000000000000000L".toList (-9223372036854775808) := by
    have value : digitsValue? hexValue? 16 "8000000000000000".toList = some 9223372036854775808 := by decide +kernel
    exact .mk .minus (.hex (.inl rfl) (by decide) value) (by simp [isSize] : ∀ c ∈ ['L'], isSize c = true)
  have large : Denotes "18446744073709551616".toList 18446744073709551616 := denotes_toString 18446744073709551616
  obtain ⟨isRead, isShown⟩ := denoted _ least
  have read := isRead.trans (if_pos (by decide))
  have shown : value "-0x8000000000000000L" = .ok (Octets.ofString "-9223372036854775808") := by decide +kernel
  refine ⟨least, read, accepted _ read, ?_, large, (denotedLarge _ large).1.trans (by decide)⟩
  rw [shown, (isShown _ shown).mpr (by decide)]

/-- The numbers right outside the words are each shown as the word at the other end. -/
theorem readInteger_wraps :
    Denotes "9223372036854775808".toList 9223372036854775808 ∧
      readInteger "9223372036854775808".toList = .ok (-9223372036854775808) ∧
      value "9223372036854775808" = .ok (Octets.ofString "-9223372036854775808") ∧
      Denotes "-9223372036854775809".toList (-9223372036854775809) ∧
      readInteger "-9223372036854775809".toList = .ok 9223372036854775807 ∧
      value "-9223372036854775809" = .ok (Octets.ofString "9223372036854775807") := by
  have above : Denotes "9223372036854775808".toList 9223372036854775808 := denotes_toString 9223372036854775808
  have below : Denotes "-9223372036854775809".toList (-9223372036854775809) :=
    denotes_toString (Int.negSucc 9223372036854775808)
  exact ⟨above, by decide +kernel, by decide +kernel, below, by decide +kernel, by decide +kernel⟩

end SmaliTrace.Smali.Literal
