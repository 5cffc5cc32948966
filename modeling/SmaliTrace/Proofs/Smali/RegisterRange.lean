import SmaliTrace.Proofs.Smali.Decoder
import SmaliTrace.Proofs.Text.Cut

/-!
Ranges of registers. A range whose last number is not below the first one is expanded to all registers between them, as
long as they have room and the counter gets past the last of them. It never gets past the largest word, and the count of
a wide range is no size that a list could have: from such a range there is no coming back.
-/
namespace SmaliTrace.Smali
open Number (IsWord)

variable {letter : Char} {low high i : Int} {found : Array Register}

/-- The registers with the letter and the numbers from `low` to `high`, in ascending order. -/
def registerRange (letter : Char) (low high : Int) : List Register :=
  (List.range (high - low + 1).toNat).map fun (i : Nat) => register letter (low + i)

theorem registerRange_nil (empty : high < low) : registerRange letter low high = [] := by
  have none : (high - low + 1).toNat = 0 := by omega
  rw [registerRange, none, List.range_zero, List.map_nil]

theorem registerRange_cons (filled : low ≤ high) :
    registerRange letter low high = register letter low :: registerRange letter (low + 1) high := by
  have more : (high - low + 1).toNat = (high - (low + 1) + 1).toNat + 1 := by omega
  rw [registerRange, registerRange, more, List.range_succ_eq_map, List.map_cons, List.map_map]
  congr 1
  · simp
  · refine List.map_congr_left fun j _ => congrArg (register letter) ?_
    push_cast
    omega

/-! ### Counting -/

/-- The loop over the numbers up to `high`, one pass at a time: a register is added while the counter is not beyond `high`,
and the counter, which is a word, goes on. -/
inductive Counts (letter : Char) (high : Int) : Int → Array Register → Array Register → Prop
  | done {i : Int} {found : Array Register} (passed : high < i) : Counts letter high i found found
  | pass {i : Int} {found registers : Array Register} (counted : i ≤ high)
      (later : Counts letter high (Number.wrap (i + 1)) (found.push (register letter i)) registers) :
      Counts letter high i found registers

/-- The counter does not get past the largest word. -/
theorem not_counts_largest {registers : Array Register} (isWord : IsWord i) :
    ¬ Counts letter largestWord i found registers := by
  intro counts
  induction counts with
  | done passed =>
    have := isWord.2
    unfold largestWord at passed
    omega
  | pass _ _ ih => exact ih (Number.isWord_wrap _)

/-- Counting comes to an end where the loop does, and with the same registers. -/
theorem countUp_eq_some_iff {registers : Array Register} (isWord : IsWord i) (isWord' : IsWord high) :
    countUp letter high i found = some registers ↔ Counts letter high i found registers := by
  have next {i : Int} (isWord : IsWord i) (counted : i ≤ high) (ends : high ≠ largestWord) :
      IsWord (i + 1) ∧ Number.wrap (i + 1) = i + 1 := by
    unfold largestWord at ends
    unfold IsWord at isWord isWord' ⊢
    exact ⟨by omega, Number.wrap_eq (by omega) (by omega)⟩
  constructor
  · intro ends
    fun_induction countUp letter high i found with
    | case1 => cases ends
    | case2 i found counted ends' ih =>
      obtain ⟨later, same⟩ := next isWord counted ends'
      exact .pass counted (same.symm ▸ ih later ends)
    | case3 i found passed =>
      cases ends
      exact .done (Int.not_le.mp passed)
  · intro counts
    by_cases last : high = largestWord
    · subst last
      exact absurd counts (not_counts_largest isWord)
    · induction counts with
      | done passed => rw [countUp, if_neg (Int.not_le.mpr passed)]
      | pass counted _ ih =>
        obtain ⟨later, same⟩ := next isWord counted last
        rw [same] at ih
        rw [countUp, if_pos counted, if_neg last]
        exact ih later

/-- Counting ends behind the last register, if that is not the largest word. -/
theorem countUp_eq (ends : high ≠ largestWord) :
    countUp letter high i found = some (found ++ (registerRange letter i high).toArray) := by
  fun_induction countUp letter high i found with
  | case1 => contradiction
  | case2 i found counted _ ih => rw [ih, registerRange_cons counted]; simp
  | case3 i found passed => rw [registerRange_nil (Int.not_le.mp passed)]; simp

/-! ### Expanding -/

variable {s : List Char} {first last : Register}

theorem endsWith_brace (inside : List Char) : Text.endsWith "\x7d" (inside ++ ['\x7d']) = true :=
  List.isSuffixOf_iff_suffix.mpr (List.suffix_append ..)

theorem isWord_of_splitRegister? {s : List Char} {n : Int} (split : splitRegister? s = some (letter, n)) : IsWord n := by
  obtain ⟨digits, -, -, read⟩ := eq_cons_of_splitRegister? split
  exact Number.isWord_of_readSigned read

/-- The operand for the range between two registers, with any blanks around them. -/
inductive RangeOperand (first last : Register) : List Char → Prop
  | mk {before between between' after : List Char}
      (blank : ∀ c ∈ before ++ between ++ between' ++ after, Text.isBlank c = true) :
      RangeOperand first last
        ('\x7b' :: (before ++ (first.toList ++ between ++ "..".toList ++ (between' ++ last.toList)) ++ after) ++ ['\x7d'])

/-- A text with no points but those that it is put together with is cut into its halves. -/
theorem pieces_points {front back : List Char} (free : '.' ∉ front) (free' : '.' ∉ back) :
    Text.pieces "..".toList (front ++ "..".toList ++ back) = [front, back] := by
  have points : "..".toList = ['.', '.'] := String.toList_ofList
  rw [points]
  have first : Text.cut? ['.', '.'] (front ++ ['.', '.'] ++ back) = some (front, back) := by
    refine (Text.cut?_eq_some_iff (List.cons_ne_nil _ _)).mpr ⟨rfl, fun occurs => ?_⟩
    -- there is only one point up to there
    have := occurs.sublist.count_le '.'
    simp [List.count_eq_zero.mpr free] at this
  have second : Text.cut? ['.', '.'] back = none :=
    Text.cut?_eq_none_iff.mpr fun occurs => free' (occurs.subset List.mem_cons_self)
  have last : Text.pieces ['.', '.'] back = [back] := by
    rw [Text.pieces]
    split
    · rfl
    · next cut =>
      rw [second] at cut
      cases cut
  rw [Text.pieces]
  split
  · next uncut =>
    rw [first] at uncut
    cases uncut
  · next before after cut =>
    rw [first] at cut
    cases cut
    rw [dif_neg (List.cons_ne_nil _ _), last]

/-- The operand is cut into the texts around its points, of which each is a register and blanks. -/
theorem exists_bounds {n m : Int} (line : List Char) (isRange : RangeOperand first last s)
    (isFirst : splitRegister? first.toList = some (letter, n)) (isLast : splitRegister? last.toList = some (letter, m)) :
    ∃ front back, parseRegisterList line s = expandRange line [front, back] ∧ Text.trim front = first.toList ∧
      Text.trim back = last.toList := by
  obtain @⟨before, between, between', after, blank⟩ := isRange
  simp only [List.mem_append] at blank
  have accepted : isRegister first.toList = true := by rw [isRegister, isFirst]; rfl
  have accepted' : isRegister last.toList = true := by rw [isRegister, isLast]; rfl
  have solid := solid_register accepted
  have solid' := solid_register accepted'
  have free {r : Register} {blanks : List Char} (accepted : isRegister r.toList = true)
      (spaces : ∀ c ∈ blanks, Text.isBlank c = true) : '.' ∉ r.toList ∧ '.' ∉ blanks := by
    exact ⟨fun inside => by simpa using mem_of_isRegister accepted _ inside, fun inside => absurd (spaces _ inside) (by decide)⟩
  have body : Text.trim (before ++ (first.toList ++ between ++ "..".toList ++ (between' ++ last.toList)) ++ after) =
      first.toList ++ between ++ "..".toList ++ (between' ++ last.toList) := by
    refine Text.trim_append ?_ (fun c inside => blank c (by simp [inside])) fun c inside => blank c (by simp [inside])
    simpa using solid.append solid' (between ++ "..".toList ++ between')
  have filled : ¬ (first.toList ++ between ++ "..".toList ++ (between' ++ last.toList)).isEmpty := by simp
  have points : Text.contains ".." (first.toList ++ between ++ "..".toList ++ (between' ++ last.toList)) := by
    obtain ⟨parts, cut⟩ := Text.exists_cut?_of_append (first.toList ++ between) (between' ++ last.toList)
    rw [Text.contains, cut]
    rfl
  refine ⟨first.toList ++ between, between' ++ last.toList, ?_, ?_, ?_⟩
  · rw [List.cons_append, parseRegisterList, if_pos (endsWith_brace _)]
    dsimp only
    rw [List.dropLast_concat, body, if_neg filled, if_pos points, pieces_points]
    · simpa using free accepted fun c inside => blank c (by simp [inside])
    · simpa [and_comm] using free accepted' fun c inside => blank c (by simp [inside])
  · have trimmed : Text.trim ([] ++ first.toList ++ between) = first.toList :=
      Text.trim_append solid (by simp) fun c inside => blank c (by simp [inside])
    simpa using trimmed
  · have trimmed : Text.trim (between' ++ last.toList ++ []) = last.toList :=
      Text.trim_append solid' (fun c inside => blank c (by simp [inside])) (by simp)
    simpa using trimmed

/-- What the expansion of a range comes to. It is refused if the last number is below the first one. Otherwise it is the
registers between them, unless these are more than there is room for or the last is the largest word; the range of all
words has a count of zero, so that it is given room. -/
theorem parseRegisterList_range (line : List Char) (isRange : RangeOperand first last s)
    (isFirst : splitRegister? first.toList = some (letter, low))
    (isLast : splitRegister? last.toList = some (letter, high)) :
    parseRegisterList line s =
      if high < low then fail line .emptyRegisterRange
      else if largestRoom ≤ high - low ∧ high - low < 18446744073709551615 then fail line .oversizedRange
      else if high = largestWord then fail line .endlessRange
      else .ok (registerRange letter low high) := by
  obtain ⟨front, back, same, isFront, isBack⟩ := exists_bounds line isRange isFirst isLast
  obtain ⟨least, -⟩ := isWord_of_splitRegister? isFirst
  obtain ⟨-, largest⟩ := isWord_of_splitRegister? isLast
  rw [same, expandRange, isFront, isBack, isFirst, isLast]
  dsimp only
  rw [if_neg (not_not_intro rfl)]
  by_cases empty : high < low
  · rw [if_pos empty, if_pos empty]
  rw [if_neg empty, if_neg empty]
  have room : (Number.wrap (high - low + 1) < 0 ∨ largestRoom < Number.wrap (high - low + 1)) ↔
      largestRoom ≤ high - low ∧ high - low < 18446744073709551615 := by
    unfold Number.wrap Number.wordCount largestRoom
    rw [Int.bmod_def]
    omega
  rw [if_congr room rfl rfl]
  refine if_congr Iff.rfl rfl ?_
  by_cases last : high = largestWord
  · rw [countUp, if_pos (Int.not_lt.mp empty), if_pos last, if_pos last]
  · rw [countUp_eq last, if_neg last]
    simp

/-- A range is refused if its last number is below the first one. Otherwise it is expanded to all registers with its letter
between the two, in ascending order, exactly if they have room and the last number is not the largest word. What remains
is fatal: the count is too large or wraps to a number below zero, or the counter wraps and the loop does not end. -/
theorem parseRegisterList_of_rangeOperand (line : List Char) (isRange : RangeOperand first last s)
    (isFirst : splitRegister? first.toList = some (letter, low))
    (isLast : splitRegister? last.toList = some (letter, high)) :
    (high < low → parseRegisterList line s = fail line .emptyRegisterRange) ∧
    (low ≤ high →
      ((∃ registers, parseRegisterList line s = .ok registers) ↔ high - low < largestRoom ∧ high ≠ largestWord) ∧
      (∀ registers, parseRegisterList line s = .ok registers →
        registers = registerRange letter low high ∧ Counts letter high low #[] registers.toArray) ∧
      ∀ e, parseRegisterList line s = .error e → e.flaw.isFatal = true ∧
        (e.flaw = .oversizedRange ∧ largestRoom ≤ high - low ∨
          e.flaw = .endlessRange ∧ ∀ registers, ¬ Counts letter high low #[] registers)) := by
  have isWord := isWord_of_splitRegister? isFirst
  have isWord' := isWord_of_splitRegister? isLast
  rw [parseRegisterList_range line isRange isFirst isLast]
  refine ⟨fun empty => if_pos empty, fun filled => ?_⟩
  rw [if_neg (Int.not_lt.mpr filled)]
  split_ifs with oversized endless
  · refine ⟨⟨?_, ?_⟩, ?_, ?_⟩
    · rintro ⟨registers, ⟨⟩⟩
    · rintro ⟨few, -⟩
      exact absurd oversized.1 (Int.not_le.mpr few)
    · rintro registers ⟨⟩
    · rintro e ⟨⟩
      exact ⟨rfl, .inl ⟨rfl, oversized.1⟩⟩
  · refine ⟨⟨?_, ?_⟩, ?_, ?_⟩
    · rintro ⟨registers, ⟨⟩⟩
    · rintro ⟨-, ends⟩
      exact absurd endless ends
    · rintro registers ⟨⟩
    · rintro e ⟨⟩
      subst endless
      exact ⟨rfl, .inr ⟨rfl, fun registers => not_counts_largest isWord⟩⟩
  · refine ⟨⟨fun _ => ⟨?_, endless⟩, fun _ => ⟨_, rfl⟩⟩, ?_, ?_⟩
    · unfold largestWord at endless
      unfold largestRoom at oversized ⊢
      unfold IsWord at isWord isWord'
      omega
    · rintro registers ⟨⟩
      refine ⟨rfl, (countUp_eq_some_iff isWord isWord').mp ?_⟩
      have counted : countUp letter high low #[] = some (#[] ++ (registerRange letter low high).toArray) :=
        countUp_eq endless
      simpa using counted
    · rintro e ⟨⟩

/-- Three registers, whose numbers are read as such however they are written. -/
theorem parseRegisterList_three :
    RangeOperand "v01" "v+3" "\x7bv01 .. v+3\x7d".toList ∧
      parseRegisterList [] "\x7bv01 .. v+3\x7d".toList = .ok ["v1", "v2", "v3"] := by
  have space : Text.isBlank ' ' = true := by decide
  have isRange : RangeOperand "v01" "v+3" "\x7bv01 .. v+3\x7d".toList :=
    @RangeOperand.mk "v01" "v+3" [] [' '] [' '] [] (by simpa using space)
  have isFirst : splitRegister? "v01".toList = some ('v', 1) := by decide
  have isLast : splitRegister? "v+3".toList = some ('v', 3) := by decide
  obtain ⟨-, expanded⟩ := parseRegisterList_of_rangeOperand [] isRange isFirst isLast
  obtain ⟨accepted, exactly, -⟩ := expanded (by decide)
  obtain ⟨registers, read⟩ := accepted.mpr (by decide)
  refine ⟨isRange, read.trans (congrArg Except.ok ((exactly _ read).1.trans ?_))⟩
  decide

/-- Two ranges that are not expanded: one whose count is too large, and one with a single register, the largest of all,
behind which the counter wraps. -/
theorem parseRegisterList_unexpanded :
    (RangeOperand "v0" "v9223372036854775806" "\x7bv0 .. v9223372036854775806\x7d".toList ∧
      isRegister "v0".toList = true ∧ isRegister "v9223372036854775806".toList = true ∧
      ¬ ∃ registers, parseRegisterList [] "\x7bv0 .. v9223372036854775806\x7d".toList = .ok registers) ∧
    (RangeOperand "v9223372036854775807" "v9223372036854775807"
        "\x7bv9223372036854775807 .. v9223372036854775807\x7d".toList ∧
      isRegister "v9223372036854775807".toList = true ∧
      ¬ ∃ registers, parseRegisterList [] "\x7bv9223372036854775807 .. v9223372036854775807\x7d".toList =
        .ok registers) := by
  have space : Text.isBlank ' ' = true := by decide
  have wide : RangeOperand "v0" "v9223372036854775806" "\x7bv0 .. v9223372036854775806\x7d".toList := by
    have spelled := @RangeOperand.mk "v0" "v9223372036854775806" [] [' '] [' '] [] (by simpa using space)
    repeat rw [String.toList_ofList] at spelled
    rw [String.toList_ofList]
    exact spelled
  have single : RangeOperand "v9223372036854775807" "v9223372036854775807"
      "\x7bv9223372036854775807 .. v9223372036854775807\x7d".toList := by
    have spelled := @RangeOperand.mk "v9223372036854775807" "v9223372036854775807" [] [' '] [' '] [] (by simpa using space)
    rw [String.toList_ofList] at spelled ⊢
    exact spelled
  have first : splitRegister? "v0".toList = some ('v', 0) := by decide +kernel
  have last : splitRegister? "v9223372036854775806".toList = some ('v', 9223372036854775806) := by decide +kernel
  have largest : splitRegister? "v9223372036854775807".toList = some ('v', 9223372036854775807) := by decide +kernel
  refine ⟨⟨wide, by rw [isRegister, first]; rfl, by rw [isRegister, last]; rfl, ?_⟩,
    single, by rw [isRegister, largest]; rfl, ?_⟩
  · rw [parseRegisterList_range [] wide first last]
    rintro ⟨registers, read⟩
    cases read
  · rw [parseRegisterList_range [] single largest largest]
    rintro ⟨registers, read⟩
    cases read

end SmaliTrace.Smali
