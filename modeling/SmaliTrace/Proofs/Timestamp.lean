import Mathlib.Data.List.TakeWhile
import SmaliTrace.Proofs.Number.Digits
import SmaliTrace.Timestamp

/-!
A point in time is read back from its written form, if its year has at most four digits and its zone is less than a day
away.
-/
namespace SmaliTrace.Timestamp

variable {rest : List Char}

/-! ### Digits -/

theorem decimalValue?_digit {d : Nat} (small : d < 10) : Number.decimalValue? (Char.ofNat (48 + d)) = some d := by
  revert d
  decide

@[simp] theorem length_padded (width n : Nat) : (padded width n).length = width := by
  induction width generalizing n with
  | zero => rfl
  | succ width ih => rw [padded, List.length_append, ih, List.length_singleton]

theorem isSome_of_mem_padded {width n : Nat} {c : Char} (inside : c ∈ padded width n) :
    (Number.decimalValue? c).isSome = true := by
  induction width generalizing n with
  | zero => cases inside
  | succ width ih =>
    rcases List.mem_append.mp inside with before | last
    · exact ih before
    · rw [List.mem_singleton.mp last, decimalValue?_digit (Nat.mod_lt n (by decide))]
      rfl

theorem digitsValue?_padded {width n : Nat} (fits : n < 10 ^ width) :
    Text.digitsValue? Number.decimalValue? 10 (padded width n) = some n := by
  induction width generalizing n with
  | zero =>
    obtain rfl : n = 0 := by omega
    rfl
  | succ width ih =>
    have quotient : n / 10 < 10 ^ width := Nat.div_lt_of_lt_mul (by rwa [Nat.pow_succ, Nat.mul_comm] at fits)
    have last := decimalValue?_digit (Nat.mod_lt n (by decide : 0 < 10))
    have value := ih quotient
    rw [Text.digitsValue?] at value ⊢
    rw [padded, List.foldlM_append, value]
    simp only [bind, Option.bind_some, List.foldlM_cons, List.foldlM_nil, last, Option.map_some, pure]
    rw [Nat.div_add_mod']

/-! ### Parts -/

@[simp] theorem run_expect (c : Char) (rest : List Char) : (expect c).run (c :: rest) = some ((), rest) := by
  simp [expect]

theorem run_digits {width n : Nat} (fits : n < 10 ^ width) (rest : List Char) :
    (digits width).run (padded width n ++ rest) = some (n, rest) := by
  have enough : ¬ width + rest.length < width := by omega
  simp [digits, enough, digitsValue?_padded fits, List.take_left', List.drop_left']

theorem run_below {top n : Nat} {number : Reader Nat} {s rest : List Char} (read : number.run s = some (n, rest))
    (within : n ≤ top) : (below top number).run s = some (n, rest) := by
  simp [below, read, within]

theorem run_shortNumber {n : Nat} (fits : n < 100) (rest : List Char) :
    shortNumber.run (padded 2 n ++ rest) = some (n, rest) := by
  have second : ((padded 2 n ++ rest)[1]?).any (fun c => (Number.decimalValue? c).isSome) = true := by
    have inside : (padded 2 n)[1]? = some (Char.ofNat (48 + n % 10)) := rfl
    have last := decimalValue?_digit (Nat.mod_lt n (by decide : 0 < 10))
    rw [List.getElem?_append_left (by simp), inside, Option.any_some, last]
    rfl
  have read : (digits 2).run (padded 2 n ++ rest) = some (n, rest) := run_digits fits rest
  simp [shortNumber, second, read]

/-! ### The fraction of a second -/

/-- No digit and no mark of a fraction comes next. -/
def Plain (rest : List Char) : Prop :=
  ∀ c ∈ rest.head?, (Number.decimalValue? c).isSome = false ∧ c ≠ '.' ∧ c ≠ ','

/-- The digits without the zeros at their end. -/
def significant (n : Nat) : List Char := ((padded 9 n).reverse.dropWhile (· = '0')).reverse

/-- The nine digits are the significant ones with zeros behind them. -/
theorem padded_eq_append (n : Nat) : padded 9 n = significant n ++ List.replicate (9 - (significant n).length) '0' := by
  have parts := List.takeWhile_append_dropWhile (p := (· = '0')) (l := (padded 9 n).reverse)
  have zeros : (padded 9 n).reverse.takeWhile (· = '0') =
      List.replicate ((padded 9 n).reverse.takeWhile (· = '0')).length '0' :=
    List.eq_replicate_iff.mpr ⟨rfl, fun c inside => by simpa using List.mem_takeWhile_imp inside⟩
  have split : padded 9 n =
      significant n ++ List.replicate ((padded 9 n).reverse.takeWhile (· = '0')).length '0' := by
    rw [← List.reverse_replicate, ← zeros, significant, ← List.reverse_append, parts, List.reverse_reverse]
  have sizes := congrArg List.length split
  rw [length_padded, List.length_append, List.length_replicate] at sizes
  rwa [show 9 - (significant n).length = _ from Nat.sub_eq_of_eq_add' sizes]

theorem significant_ne_nil {n : Nat} (fits : n < 10 ^ 9) (positive : n ≠ 0) : significant n ≠ [] := by
  intro empty
  have zeros : padded 9 n = padded 9 0 := by
    rw [padded_eq_append, empty]
    decide
  have value := digitsValue?_padded fits
  rw [zeros, digitsValue?_padded (by decide), Option.some.injEq] at value
  exact positive value.symm

theorem run_nanoseconds {n : Nat} (fits : n < 10 ^ 9) (plain : Plain rest) :
    nanoseconds.run (fraction n ++ rest) = some (n, rest) := by
  by_cases zero : n = 0
  · subst zero
    cases rest with
    | nil => rfl
    | cons c rest =>
      obtain ⟨_, noPoint, noComma⟩ := plain c rfl
      simp [nanoseconds, fraction, noPoint, noComma]
  · have digits : (significant n ++ rest).takeWhile (fun c => (Number.decimalValue? c).isSome) = significant n := by
      have all : ∀ c ∈ significant n, (Number.decimalValue? c).isSome = true := fun c inside =>
        isSome_of_mem_padded (padded_eq_append n ▸ List.mem_append_left _ inside)
      rw [List.takeWhile_append_of_pos all]
      cases rest with
      | nil => simp
      | cons c rest => rw [List.takeWhile_cons, (plain c rfl).1, if_neg Bool.false_ne_true, List.append_nil]
    have nine : (significant n).take 9 ++ List.replicate (9 - (significant n).length) '0' = padded 9 n := by
      have short : (significant n).length ≤ 9 := by
        have sizes := congrArg List.length (padded_eq_append n)
        rw [length_padded, List.length_append] at sizes
        omega
      rw [List.take_of_length_le short, ← padded_eq_append]
    have written : fraction n ++ rest = '.' :: (significant n ++ rest) := by
      rw [fraction, if_neg zero]
      rfl
    have some : (significant n).isEmpty = false := by simpa using significant_ne_nil fits zero
    rw [written]
    simp only [nanoseconds, StateT.run_bind, StateT.run_get, Option.pure_def, Option.bind_eq_bind, Option.bind_some]
    rw [digits, some, nine, digitsValue?_padded fits]
    simp

/-! ### The zone -/

theorem run_offsetMinutes {offset : Int} (near : offset.natAbs < 24 * 60) (rest : List Char) :
    offsetMinutes.run (zone offset ++ rest) = some (offset, rest) := by
  by_cases universal : offset = 0
  · subst universal
    rfl
  · rw [zone, if_neg universal]
    obtain ⟨size, isSize⟩ : ∃ size, offset.natAbs = size := ⟨_, rfl⟩
    rw [isSize] at near ⊢
    have taken (rest : List Char) : (below 24 (digits 2)).run (padded 2 (size / 60) ++ rest) = some (size / 60, rest) :=
      run_below (run_digits (by omega) rest) (by omega)
    have taken' (rest : List Char) : (below 60 (digits 2)).run (padded 2 (size % 60) ++ rest) = some (size % 60, rest) :=
      run_below (run_digits (by omega) rest) (by omega)
    by_cases behind : offset < 0
    · simp [behind, offsetMinutes, taken, taken']
      omega
    · simp [behind, offsetMinutes, taken, taken']
      omega

theorem plain_zone (offset : Int) (rest : List Char) : Plain (zone offset ++ rest) := by
  unfold zone
  split_ifs <;> simp [Plain] <;> decide

/-! ### The whole -/

theorem daysInMonth_le (year : Int) (month : Nat) : daysInMonth year month ≤ 31 := by
  unfold daysInMonth
  split_ifs <;> decide

theorem run_date {year month day : Nat} (isYear : year < 10 ^ 4) (isMonth : month ≤ 12) (isDay : day ≤ 31)
    (rest : List Char) :
    (date false).run (padded 4 year ++ '-' :: (padded 2 month ++ '-' :: (padded 2 day ++ rest))) =
      some ((year, month, day), rest) := by
  have takesYear := fun rest => run_digits isYear rest
  have takesMonth := fun rest => run_below (run_digits (show month < 10 ^ 2 by omega) rest) isMonth
  have takesDay := fun rest => run_digits (show day < 10 ^ 2 by omega) rest
  simp [date, takesYear, takesMonth, takesDay]

theorem run_timeOfDay {hour minute second nanosecond : Nat}
    (isTime : hour ≤ 23 ∧ minute ≤ 59 ∧ second ≤ 59 ∧ nanosecond < 1000000000) (plain : Plain rest) :
    (timeOfDay false).run (padded 2 hour ++ ':' :: (padded 2 minute ++ ':' :: (padded 2 second ++
      (fraction nanosecond ++ rest)))) = some ((hour, minute, second, nanosecond), rest) := by
  obtain ⟨isHour, isMinute, isSecond, isFraction⟩ := isTime
  have takesHour := fun rest => run_below (run_shortNumber (n := hour) (by omega) rest) isHour
  have takesMinute := fun rest => run_below (run_digits (show minute < 10 ^ 2 by omega) rest) isMinute
  have takesSecond := fun rest => run_below (run_digits (show second < 10 ^ 2 by omega) rest) isSecond
  simp [timeOfDay, takesHour, takesMinute, takesSecond, run_nanoseconds isFraction plain]

/-- A point in time is read back. -/
theorem read?_text {t : Timestamp} (isYear : 0 ≤ t.year ∧ t.year ≤ 9999) (near : t.offset.natAbs < 24 * 60) :
    read? t.text = some t := by
  obtain ⟨year, month, day, hour, minute, second, nanosecond, offset, isDate, isTime⟩ := t
  dsimp only at isYear near
  obtain ⟨year, rfl⟩ := Int.eq_ofNat_of_zero_le isYear.1
  have takesDate := run_date (show year < 10 ^ 4 by omega) isDate.1.2 (isDate.2.2.trans (daysInMonth_le _ _))
  have takesTime := run_timeOfDay isTime (plain_zone offset [])
  have takesZone := run_offsetMinutes near []
  rw [List.append_nil] at takesTime takesZone
  have made : make? (year, month, day) (hour, minute, second, nanosecond) offset =
      some ⟨year, month, day, hour, minute, second, nanosecond, offset, isDate, isTime⟩ := by
    simp only [make?, dif_pos isDate, dif_pos isTime]
  simp [read?, whole?, text, reader, takesDate, takesTime, takesZone, made]

end SmaliTrace.Timestamp
