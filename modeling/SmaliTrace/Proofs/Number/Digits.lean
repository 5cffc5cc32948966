import SmaliTrace.Number.Double
import SmaliTrace.Proofs.Number.Decimal
import SmaliTrace.Proofs.Text.Quoted

/-!
What comes of reading digits. They are read as an unsigned word exactly if the number that they denote is one; and as
digits alone, hexadecimal ones are no floating-point number.
-/
namespace SmaliTrace.Number

variable {digit? : Char → Option Nat} {base n m : Nat} {s : List Char}

/-- More digits do not make a number less. -/
theorem le_of_foldlM (positive : 0 < base) (value : s.foldlM (fun n c => (digit? c).map (n * base + ·)) n = some m) :
    n ≤ m := by
  induction s generalizing n with
  | nil => exact Nat.le_of_eq (Option.some.inj value)
  | cons c rest ih =>
    obtain ⟨next, isNext, value⟩ := Option.bind_eq_some_iff.mp value
    obtain ⟨d, -, rfl⟩ := Option.map_eq_some_iff.mp isNext
    calc n ≤ n * base := Nat.le_mul_of_pos_right n positive
      _ ≤ n * base + d := Nat.le_add_right ..
      _ ≤ m := ih value

/-- Digits are read up to their end if the number that they denote is a word. -/
theorem readDigits_eq_ok_iff (positive : 0 < base) (fits : n < wordCount) : readDigits digit? base n s = .ok m ↔
    s.foldlM (fun n c => (digit? c).map (n * base + ·)) n = some m ∧ m < wordCount := by
  induction s generalizing n with
  | nil =>
    constructor
    · rintro ⟨⟩
      exact ⟨rfl, fits⟩
    · rintro ⟨value, -⟩
      exact congrArg Except.ok (Option.some.inj value)
  | cons c rest ih =>
    rw [readDigits, List.foldlM_cons]
    cases isDigit : digit? c with
    | none => simp
    | some d =>
      dsimp only [Option.map_some, Option.bind_eq_bind, Option.bind_some]
      split
      · next fits => exact ih fits
      · next large =>
        constructor
        · intro read
          cases read
        · intro value
          exact absurd (Nat.lt_of_le_of_lt (le_of_foldlM positive value.1) value.2) large

theorem readUnsigned_eq_ok_iff :
    readUnsigned s = .ok m ↔ s ≠ [] ∧ Text.digitsValue? decimalValue? 10 s = some m ∧ m < wordCount := by
  rw [readUnsigned]
  cases s with
  | nil => simp
  | cons c rest =>
    rw [if_neg (by simp), readDigits_eq_ok_iff (by decide) (by decide), Text.digitsValue?]
    simp

theorem readHex_eq_ok_iff :
    readHex s = .ok m ↔ s ≠ [] ∧ Text.digitsValue? Text.hexValue? 16 s = some m ∧ m < wordCount := by
  rw [readHex]
  cases s with
  | nil => simp
  | cons c rest =>
    rw [if_neg (by simp), readDigits_eq_ok_iff (by decide) (by decide), Text.digitsValue?]
    simp

/-- The decimal digits of a number denote it. -/
theorem digitsValue?_toDigits (n : Nat) : Text.digitsValue? decimalValue? 10 (Nat.toDigits 10 n) = some n := by
  have value {digits : List Char} (areDigits : ∀ c ∈ digits, c.isDigit = true) (m : Nat) :
      digits.foldlM (fun n c => (decimalValue? c).map (n * 10 + ·)) m = some (Nat.ofDigitChars 10 digits m) := by
    induction digits generalizing m with
    | nil => rfl
    | cons c rest ih =>
      rw [List.foldlM_cons, decimalValue?_of_isDigit (areDigits c List.mem_cons_self), Nat.ofDigitChars_cons, Nat.mul_comm]
      exact ih (fun c later => areDigits c (List.mem_cons_of_mem _ later)) _
  have areDigits : ∀ c ∈ Nat.toDigits 10 n, c.isDigit = true := fun _ =>
    Nat.isDigit_of_mem_toDigits (by decide) (by decide)
  rw [Text.digitsValue?, value areDigits, Nat.ofDigitChars_ten_toDigits]

/-! ### Floating-point notation -/

/-- The scan stops inside the text. -/
theorem scanMantissa_suffix (found : Mantissa) : (scanMantissa digit? base found s).2 <:+ s := by
  fun_induction scanMantissa digit? base found s with
  | case1 | case3 | case5 => exact List.suffix_refl _
  | case2 _ _ ih | case4 _ _ _ _ ih | case6 _ _ _ _ _ _ _ _ ih => exact ih.trans (List.suffix_cons ..)

theorem eq_of_toLower_eq {c : Char} (mark : c.toLower = 'p') : c = 'p' ∨ c = 'P' := by
  unfold Char.toLower at mark
  split at mark
  · right
    have shifted : c.val + 32 = 80 + 32 := congrArg Char.val mark
    exact Char.ext ((UInt32.add_left_inj 32).mp shifted)
  · exact .inl mark

/-- There is no hexadecimal number without the mark of an exponent. -/
theorem readHexDouble?_eq_none (negative : Bool) (noMark : 'p' ∉ s ∧ 'P' ∉ s) :
    readHexDouble? negative s = none := by
  have inside : (scanMantissa Text.hexValue? 16 {} s).2 <:+ s := scanMantissa_suffix {}
  unfold readHexDouble?
  generalize scanMantissa Text.hexValue? 16 {} s = scanned at inside ⊢
  obtain ⟨found, rest⟩ := scanned
  cases rest with
  | nil => simp
  | cons mark rest =>
    have noExponent : mark.toLower ≠ 'p' := by
      intro isMark
      rcases eq_of_toLower_eq isMark with rfl | rfl
      · exact noMark.1 (inside.subset List.mem_cons_self)
      · exact noMark.2 (inside.subset List.mem_cons_self)
    simp [noExponent]

/-- There is no decimal number that goes on with anything but an exponent. -/
theorem readDecimalDouble?_eq_none (negative : Bool) {mark : Char} {rest : List Char} {found : Mantissa}
    (scanned : scanMantissa decimalValue? 10 {} s = (found, mark :: rest)) (noExponent : mark.toLower ≠ 'e') :
    readDecimalDouble? negative s = none := by
  unfold readDecimalDouble?
  simp [scanned, noExponent]

/-- A hexadecimal magnitude behind a capital mark is no number without the mark of an exponent, whatever its sign. -/
theorem readDouble?_eq_none {sign : List Char} (signed : sign ∈ [[], ['+'], ['-'], ['-', '+']])
    (noMark : 'p' ∉ s ∧ 'P' ∉ s) : readDouble? (sign ++ '0' :: 'X' :: s) = none := by
  have unnamed : (sign ++ '0' :: 'X' :: s).map Char.toLower ≠ "nan".toList := by
    intro same
    have zero : '0' ∈ (sign ++ '0' :: 'X' :: s).map Char.toLower := List.mem_map.mpr ⟨'0', by simp, by decide⟩
    rw [same] at zero
    exact absurd zero (by decide)
  have finite {c : Char} {rest : List Char} (other : c.toLower ≠ 'i') : ¬ isInfinityName (c :: rest) = true := by
    simp [isInfinityName, other]
  have second (rest : List Char) : readDecimalDouble? true ('+' :: '0' :: 'X' :: rest) = none :=
    have stops : scanMantissa decimalValue? 10 {} ('+' :: '0' :: 'X' :: rest) = ({}, '+' :: '0' :: 'X' :: rest) := rfl
    readDecimalDouble?_eq_none true stops (by decide)
  have decimal (negative : Bool) : readDecimalDouble? negative ['0', 'X'] = none :=
    readDecimalDouble?_eq_none negative rfl (by decide)
  rw [readDouble?, if_neg unnamed]
  simp only [List.mem_cons, List.not_mem_nil, or_false] at signed
  -- without digits behind it the mark is no mark
  cases s with
  | nil =>
    rcases signed with rfl | rfl | rfl | rfl
    · exact (if_neg (finite (by decide))).trans (decimal false)
    · exact (if_neg (finite (by decide))).trans (decimal false)
    · exact (if_neg (finite (by decide))).trans (decimal true)
    · exact (if_neg (finite (by decide))).trans (second [])
  | cons d rest =>
    rcases signed with rfl | rfl | rfl | rfl
    · exact (if_neg (finite (by decide))).trans (readHexDouble?_eq_none false noMark)
    · exact (if_neg (finite (by decide))).trans (readHexDouble?_eq_none false noMark)
    · exact (if_neg (finite (by decide))).trans (readHexDouble?_eq_none true noMark)
    · exact (if_neg (finite (by decide))).trans (second (d :: rest))

end SmaliTrace.Number
