import SmaliTrace.Number.Word

/-!
Decimal numbers. A word that is written in decimal digits is read back as itself, and a text that is read as a word
has nothing but a sign and digits.
-/
namespace SmaliTrace.Number

/-- The integer is a signed word. -/
def IsWord (n : Int) : Prop := -9223372036854775808 ≤ n ∧ n < 9223372036854775808

instance (n : Int) : Decidable (IsWord n) := inferInstanceAs (Decidable (_ ∧ _))

/-- What wraps around becomes a word. -/
theorem isWord_wrap (n : Int) : IsWord (wrap n) := by
  unfold wrap wordCount IsWord
  rw [Int.bmod_def]
  omega

theorem decimalValue?_of_isDigit {c : Char} (isDigit : c.isDigit = true) :
    decimalValue? c = some (c.toNat - '0'.toNat) :=
  if_pos (Char.isDigit_iff_toNat.mp isDigit)

/-- Digits behind a number do not make it less. -/
theorem le_ofDigitChars (digits : List Char) (n : Nat) : n ≤ Nat.ofDigitChars 10 digits n := by
  rw [Nat.ofDigitChars_eq_ofDigitChars_zero]
  have := Nat.le_mul_of_pos_left n (Nat.pow_pos (by decide : 0 < 10) : 0 < 10 ^ digits.length)
  omega

/-- Reading goes on to the end of digits whose number is a word. -/
theorem readDigits_eq {digits : List Char} (areDigits : ∀ c ∈ digits, c.isDigit = true) {n : Nat}
    (fits : Nat.ofDigitChars 10 digits n < wordCount) :
    readDigits decimalValue? 10 n digits = .ok (Nat.ofDigitChars 10 digits n) := by
  induction digits generalizing n with
  | nil => rfl
  | cons c rest ih =>
    have isDigit := areDigits c List.mem_cons_self
    rw [Nat.ofDigitChars_cons, Nat.mul_comm] at fits ⊢
    rw [readDigits, decimalValue?_of_isDigit isDigit]
    have sofar : n * 10 + (c.toNat - '0'.toNat) < wordCount := Nat.lt_of_le_of_lt (le_ofDigitChars rest _) fits
    dsimp only
    rw [if_pos sofar, ih (fun c later => areDigits c (List.mem_cons_of_mem _ later)) fits]

theorem readUnsigned_toDigits {n : Nat} (fits : n < wordCount) : readUnsigned (Nat.toDigits 10 n) = .ok n := by
  have areDigits : ∀ c ∈ Nat.toDigits 10 n, c.isDigit = true := fun _ =>
    Nat.isDigit_of_mem_toDigits (by decide) (by decide)
  rw [readUnsigned, if_neg (by simp [Nat.toDigits_ne_nil]), readDigits_eq areDigits (by simpa using fits),
    Nat.ofDigitChars_ten_toDigits]

/-- A text that starts with a digit has no sign. -/
theorem readSigned_of_isDigit {s : List Char} (starts : ∀ c ∈ s.head?, c.isDigit = true) :
    readSigned s = readSigned.readMagnitude s := by
  unfold readSigned
  split
  · exact absurd (starts '-' rfl) (by decide)
  · exact absurd (starts '+' rfl) (by decide)
  · rfl

theorem toList_toString_ofNat (n : Nat) : (toString (Int.ofNat n)).toList = Nat.toDigits 10 n := String.toList_ofList

theorem toList_toString_negSucc (n : Nat) : (toString (Int.negSucc n)).toList = '-' :: Nat.toDigits 10 (n + 1) := by
  change ("-" ++ (n + 1).repr).toList = _
  rw [String.toList_append, Nat.toList_repr]
  rfl

/-- A word is read back from its decimal form. -/
theorem readSigned_toString {n : Int} (isWord : IsWord n) : readSigned (toString n).toList = .ok n := by
  obtain ⟨low, high⟩ := isWord
  have count : wordCount = 18446744073709551616 := rfl
  cases n with
  | ofNat n =>
    have fits : n < 9223372036854775808 := by
      have : (n : Int) < 9223372036854775808 := high
      omega
    rw [toList_toString_ofNat, readSigned_of_isDigit, readSigned.readMagnitude, readUnsigned_toDigits (by omega)]
    · simp [bind, Except.bind, fits]
    · intro c first
      exact Nat.isDigit_of_mem_toDigits (by decide) (by decide) (List.mem_of_mem_head? first)
  | negSucc n =>
    have fits : n + 1 ≤ 9223372036854775808 := by omega
    rw [toList_toString_negSucc, readSigned, readUnsigned_toDigits (by omega)]
    simp only [bind, Except.bind, if_pos fits]
    rfl

/-! ### What is read -/

theorem isDigit_of_readDigits {digits : List Char} {n m : Nat} (read : readDigits decimalValue? 10 n digits = .ok m) :
    ∀ c ∈ digits, c.isDigit = true := by
  induction digits generalizing n with
  | nil => simp
  | cons c rest ih =>
    rw [readDigits] at read
    split at read
    · cases read
    · next d isValue =>
      split at read
      · have isDigit : 48 ≤ c.toNat ∧ c.toNat ≤ 57 := by
          unfold decimalValue? at isValue
          split at isValue
          · assumption
          · cases isValue
        intro c' inside
        rcases List.mem_cons.mp inside with rfl | later
        · exact Char.isDigit_iff_toNat.mpr isDigit
        · exact ih read c' later
      · cases read

theorem isDigit_of_readUnsigned {s : List Char} {n : Nat} (read : readUnsigned s = .ok n) :
    ∀ c ∈ s, c.isDigit = true := by
  unfold readUnsigned at read
  split at read
  · cases read
  · exact isDigit_of_readDigits read

/-- A text that is read as a word is a sign, if any, and digits. -/
theorem isDigit_of_readSigned {s : List Char} {n : Int} (read : readSigned s = .ok n) :
    ∀ c ∈ s, c = '-' ∨ c = '+' ∨ c.isDigit = true := by
  have magnitude {digits : List Char} (read : readSigned.readMagnitude digits = .ok n) :
      ∀ c ∈ digits, c.isDigit = true := by
    cases unsigned : readUnsigned digits with
    | error e => simp [readSigned.readMagnitude, unsigned, bind, Except.bind] at read
    | ok m => exact isDigit_of_readUnsigned unsigned
  intro c inside
  unfold readSigned at read
  split at read
  · next digits =>
    rcases List.mem_cons.mp inside with rfl | later
    · exact .inl rfl
    · cases unsigned : readUnsigned digits with
      | error e => simp [unsigned, bind, Except.bind] at read
      | ok m => exact .inr (.inr (isDigit_of_readUnsigned unsigned c later))
  · next digits =>
    rcases List.mem_cons.mp inside with rfl | later
    · exact .inr (.inl rfl)
    · exact .inr (.inr (magnitude read c later))
  · exact .inr (.inr (magnitude read c inside))

theorem isWord_of_readSigned {s : List Char} {n : Int} (read : readSigned s = .ok n) : IsWord n := by
  have magnitude {digits : List Char} (read : readSigned.readMagnitude digits = .ok n) : IsWord n := by
    unfold readSigned.readMagnitude at read
    cases unsigned : readUnsigned digits with
    | error e => simp [unsigned, bind, Except.bind] at read
    | ok m =>
      simp only [unsigned, bind, Except.bind] at read
      split at read
      · cases read
        unfold IsWord
        omega
      · cases read
  unfold readSigned at read
  split at read
  · next digits =>
    cases unsigned : readUnsigned digits with
    | error e => simp [unsigned, bind, Except.bind] at read
    | ok m =>
      simp only [unsigned, bind, Except.bind] at read
      split at read
      · cases read
        unfold IsWord
        omega
      · cases read
  · exact magnitude read
  · exact magnitude read

end SmaliTrace.Number
