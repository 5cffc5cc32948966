import SmaliTrace.Proofs.Number.Decimal
import SmaliTrace.Smali.Register

/-!
Registers as texts: the usual spelling names the letter and number that it is made of, and no spelling that is
accepted has other characters than its letter, a sign and digits.
-/
namespace SmaliTrace.Smali

@[simp] theorem toList_register (letter : Char) (n : Int) :
    (register letter n).toList = letter :: (toString n).toList := by
  simp [register]

theorem splitRegister?_register {letter : Char} (isLetter : letter = 'v' ∨ letter = 'p') {n : Int}
    (isWord : Number.IsWord n) : splitRegister? (register letter n).toList = some (letter, n) := by
  rw [toList_register, splitRegister?, if_pos isLetter, Number.readSigned_toString isWord]
  rfl

/-- A register is a letter and a text that is read as its number. -/
theorem eq_cons_of_splitRegister? {s : List Char} {letter : Char} {n : Int}
    (split : splitRegister? s = some (letter, n)) :
    ∃ digits, s = letter :: digits ∧ (letter = 'v' ∨ letter = 'p') ∧ Number.readSigned digits = .ok n := by
  cases s with
  | nil => cases split
  | cons c digits =>
    rw [splitRegister?] at split
    split at split
    · next isLetter =>
      obtain ⟨m, read, same⟩ := Option.map_eq_some_iff.mp split
      cases same
      cases isNumber : Number.readSigned digits with
      | error e => simp [isNumber, Except.toOption] at read
      | ok m' =>
        simp only [isNumber, Except.toOption, Option.some.injEq] at read
        exact ⟨digits, rfl, isLetter, read ▸ isNumber⟩
    · cases split

/-- What is accepted as a register is written with a letter, a sign and digits. -/
theorem mem_of_isRegister {s : List Char} (accepted : isRegister s = true) :
    ∀ c ∈ s, c = 'v' ∨ c = 'p' ∨ c = '-' ∨ c = '+' ∨ c.isDigit = true := by
  obtain ⟨⟨letter, n⟩, split⟩ := Option.isSome_iff_exists.mp accepted
  obtain ⟨digits, rfl, isLetter, read⟩ := eq_cons_of_splitRegister? split
  intro c inside
  rcases List.mem_cons.mp inside with rfl | later
  · exact isLetter.elim .inl fun isP => .inr (.inl isP)
  · exact .inr (.inr (Number.isDigit_of_readSigned read c later))

end SmaliTrace.Smali
