import Mathlib.Data.List.Infix
import Mathlib.Data.List.TakeWhile
import Mathlib.Tactic.Common
import SmaliTrace.Text.Cut
import SmaliTrace.Text.Lines

/-!
Where a text is cut. A cut falls on the first occurrence of its pattern, or on the last one of its character, so the
parts that it leaves are known from what they are made of, and a text that is put together from such parts is cut into
them again. What is taken off at either end of a text leaves the characters between. Words end at blanks, and lines at
line feeds.
-/
namespace SmaliTrace.Text

variable {pat s before after : List Char} {c : Char}

theorem isPrefixOf?_eq_none_iff : pat.isPrefixOf? s = none ↔ ¬ pat <+: s := by
  rw [← Option.not_isSome_iff_eq_none, List.isSome_isPrefixOf?_eq_isPrefixOf, List.isPrefixOf_iff_prefix]

/-- A text is cut at the first occurrence of the pattern: there is none before that ends short of it. -/
theorem cut?_eq_some_iff (nonempty : pat ≠ []) :
    cut? pat s = some (before, after) ↔ s = before ++ pat ++ after ∧ ¬ pat <:+: before ++ pat.dropLast := by
  have positive := List.length_pos_iff.mpr nonempty
  constructor
  · intro cut
    refine ⟨eq_of_cut? cut, ?_⟩
    induction s generalizing before with
    | nil => simp [cut?, nonempty] at cut
    | cons c rest ih =>
      rw [cut?] at cut
      split at cut
      · -- cut at once: what is left of the pattern is shorter than the pattern
        cases cut
        intro occurs
        have := occurs.length_le
        rw [List.nil_append, List.length_dropLast] at this
        omega
      · next absent =>
        obtain ⟨⟨before', after'⟩, found, same⟩ := Option.map_eq_some_iff.mp cut
        cases same
        rw [List.cons_append, List.infix_cons_iff]
        rintro (starts | later)
        · refine isPrefixOf?_eq_none_iff.mp absent (starts.trans ?_)
          rw [eq_of_cut? found, List.append_assoc]
          exact (List.prefix_append_right_inj (c :: before')).mpr
            ((List.dropLast_prefix pat).trans (List.prefix_append ..))
        · exact ih found later
  · rintro ⟨rfl, first⟩
    induction before with
    | nil =>
      obtain ⟨c, rest, rfl⟩ := List.exists_cons_of_ne_nil nonempty
      have found : (c :: rest).isPrefixOf? (c :: (rest ++ after)) = some after :=
        List.isPrefixOf?_eq_some_iff_append_eq.mpr rfl
      rw [List.nil_append, List.cons_append, cut?, found]
    | cons c before ih =>
      rw [List.cons_append, List.infix_cons_iff, not_or] at first
      have absent : pat.isPrefixOf? (c :: (before ++ pat ++ after)) = none := by
        refine isPrefixOf?_eq_none_iff.mpr fun starts => first.1 ?_
        have within : c :: (before ++ pat.dropLast) <+: c :: (before ++ pat ++ after) := by
          rw [List.append_assoc, ← List.cons_append, ← List.cons_append]
          exact (List.prefix_append_right_inj (c :: before)).mpr
            ((List.dropLast_prefix pat).trans (List.prefix_append ..))
        refine List.prefix_of_prefix_length_le starts within ?_
        rw [List.length_cons, List.length_append, List.length_dropLast]
        omega
      rw [List.cons_append, List.cons_append, cut?, absent, ih first.2]
      rfl

/-- A text can be cut if the pattern occurs in it. -/
theorem cut?_eq_none_iff : cut? pat s = none ↔ ¬ pat <:+: s := by
  induction s with
  | nil => cases pat <;> simp [cut?]
  | cons c rest ih =>
    rw [cut?, List.infix_cons_iff, not_or, ← ih, ← isPrefixOf?_eq_none_iff]
    cases pat.isPrefixOf? (c :: rest) <;> simp

/-- A text in which the pattern occurs can be cut. -/
theorem exists_cut?_of_append (before after : List Char) : ∃ parts, cut? pat (before ++ pat ++ after) = some parts := by
  refine Option.ne_none_iff_exists'.mp fun uncut => cut?_eq_none_iff.mp uncut ?_
  exact ⟨before, after, rfl⟩

theorem cut?_singleton_eq_some_iff : cut? [c] s = some (before, after) ↔ s = before ++ c :: after ∧ c ∉ before := by
  rw [cut?_eq_some_iff (List.cons_ne_nil c []), List.dropLast_singleton, List.append_nil, List.singleton_infix_iff,
    List.append_assoc, List.singleton_append]

/-- What stands before the first occurrence of a character does not have that character. -/
theorem not_mem_of_cut? (cut : cut? [c] s = some (before, after)) : c ∉ before :=
  (cut?_singleton_eq_some_iff.mp cut).2

/-- A text without the character is cut off at the first occurrence behind it. -/
theorem cut?_append_cons (absent : c ∉ before) (after : List Char) :
    cut? [c] (before ++ c :: after) = some (before, after) :=
  cut?_singleton_eq_some_iff.mpr ⟨rfl, absent⟩

/-- Two different characters in a row do not occur across the place where they are cut. -/
theorem cut?_pair_eq_some_iff {d : Char} (differ : c ≠ d) :
    cut? [c, d] s = some (before, after) ↔ s = before ++ [c, d] ++ after ∧ ¬ [c, d] <:+: before := by
  rw [cut?_eq_some_iff (List.cons_ne_nil c [d])]
  refine and_congr_right fun _ => not_congr ⟨?_, fun occurs => occurs.trans (List.prefix_append ..).isInfix⟩
  rintro ⟨front, back, same⟩
  -- the text behind the pair is not empty, or the pair would end with its first character
  rcases List.eq_nil_or_concat back with rfl | ⟨back, e, rfl⟩
  · have := congrArg List.getLast? same
    simp [differ.symm] at this
  · have whole : front ++ [c, d] ++ back ++ [e] = before ++ [c] := by simpa using same
    exact ⟨front, back, (List.append_inj' whole rfl).1⟩

theorem cutLast?_eq_none_iff : cutLast? c s = none ↔ c ∉ s := by
  induction s with
  | nil => simp [cutLast?]
  | cons d rest ih =>
    rw [cutLast?, List.mem_cons, not_or, ← ih]
    cases cutLast? c rest with
    | some parts => simp
    | none => simp [eq_comm]

theorem cutLast?_eq_some_iff : cutLast? c s = some (before, after) ↔ s = before ++ c :: after ∧ c ∉ after := by
  induction s generalizing before after with
  | nil => simp [cutLast?]
  | cons d rest ih =>
    rw [cutLast?]
    cases later : cutLast? c rest with
    | some parts =>
      obtain ⟨before', after'⟩ := parts
      obtain ⟨isRest, last⟩ := ih.mp later
      simp only [Option.some.injEq, Prod.mk.injEq]
      constructor
      · rintro ⟨rfl, rfl⟩
        exact ⟨by rw [isRest, List.cons_append], last⟩
      · rintro ⟨whole, last'⟩
        cases before with
        | nil =>
          cases whole
          exact absurd (by simp [isRest]) last'
        | cons e before =>
          rw [List.cons_append, List.cons.injEq] at whole
          have := later.symm.trans (ih.mpr ⟨whole.2, last'⟩)
          simp only [Option.some.injEq, Prod.mk.injEq] at this
          exact ⟨by rw [whole.1, this.1], this.2⟩
    | none =>
      have absent := cutLast?_eq_none_iff.mp later
      dsimp only
      constructor
      · intro cut
        split at cut
        · next same =>
          cases cut
          exact ⟨by rw [same, List.nil_append], absent⟩
        · cases cut
      · rintro ⟨whole, -⟩
        cases before with
        | nil =>
          cases whole
          rw [if_pos rfl]
        | cons e before =>
          rw [List.cons_append, List.cons.injEq] at whole
          exact absurd (by simp [whole.2]) absent

theorem contains_iff {pat : String} : contains pat s = true ↔ pat.toList <:+: s := by
  rw [contains, ← not_iff_not, Bool.not_eq_true, Option.isSome_eq_false_iff, Option.isNone_iff_eq_none, cut?_eq_none_iff]

/-! ### Beginnings -/

theorem startsWith_cons {pat : String} (isChar : pat.toList = [c]) : startsWith pat (c :: s) = true := by
  rw [startsWith, isChar, List.isPrefixOf_iff_prefix]
  exact ⟨s, rfl⟩

/-- A character that the pattern does not have ends the text as far as the pattern goes. -/
theorem startsWith_append_cons {pat : String} (absent : c ∉ pat.toList) (s rest : List Char) :
    startsWith pat (s ++ c :: rest) = startsWith pat s := by
  rw [startsWith, startsWith, Bool.eq_iff_iff, List.isPrefixOf_iff_prefix, List.isPrefixOf_iff_prefix]
  refine ⟨fun starts => ?_, fun starts => starts.trans (List.prefix_append ..)⟩
  rcases List.prefix_or_prefix_of_prefix starts (List.prefix_append s (c :: rest)) with within | ⟨more, isPat⟩
  · exact within
  · -- the pattern ends with the text, or it goes on with the character
    rw [← isPat, List.prefix_append_right_inj] at starts
    cases more with
    | nil => exact ⟨[], by rw [List.append_nil, ← isPat, List.append_nil]⟩
    | cons d more =>
      rw [List.cons_prefix_cons] at starts
      exact absurd (by simp [← isPat, starts.1]) absent

theorem without_cons {pat : String} (isChar : pat.toList = [c]) : without pat (c :: s) = s := by
  have found : [c].isPrefixOf? (c :: s) = some s := List.isPrefixOf?_eq_some_iff_append_eq.mpr rfl
  rw [without, isChar, found, Option.getD_some]

/-- A text that starts with another character is left as it is. -/
theorem without_eq_self {pat : String} (isChar : pat.toList = [c]) (other : s.head? ≠ some c) :
    startsWith pat s = false ∧ without pat s = s := by
  have absent : ¬ [c] <+: s := by
    rintro ⟨rest, rfl⟩
    exact other rfl
  rw [startsWith, without, isChar, isPrefixOf?_eq_none_iff.mpr absent, ← Bool.not_eq_true, List.isPrefixOf_iff_prefix]
  exact ⟨absent, rfl⟩

theorem mem_without {pat : String} {d : Char} (isChar : pat.toList = [d]) (other : c ≠ d) (inside : c ∈ s) :
    c ∈ without pat s := by
  by_cases first : s.head? = some d
  · obtain ⟨rest, rfl⟩ := List.head?_eq_some_iff.mp first
    rw [without_cons isChar]
    exact (List.mem_cons.mp inside).resolve_left other
  · rw [(without_eq_self isChar first).2]
    exact inside

/-! ### Ends -/

theorem dropEndWhile_prefix (p : Char → Bool) (s : List Char) : dropEndWhile p s <+: s := by
  have ends := List.reverse_prefix.mpr (List.dropWhile_suffix p (l := s.reverse))
  rwa [List.reverse_reverse] at ends

/-- What is taken away at the end stands behind the last character that stays. -/
theorem dropEndWhile_append_cons {p : Char → Bool} (stays : p c = false) (front rest : List Char) :
    dropEndWhile p (front ++ c :: rest) = front ++ c :: dropEndWhile p rest := by
  rw [dropEndWhile, dropEndWhile, List.reverse_append, List.reverse_cons, List.append_assoc, List.dropWhile_append]
  split
  · next none =>
    rw [List.isEmpty_iff.mp none, List.singleton_append, List.dropWhile_cons_of_neg (by simp [stays])]
    simp
  · simp

/-! ### Trimming -/

section Trimming

variable {t front back : List Char}

/-- The text is not empty, and neither starts nor ends with a blank. -/
structure Solid (s : List Char) : Prop where
  first : ∃ c tail, s = c :: tail ∧ isBlank c = false
  last : ∃ front c, s = front ++ [c] ∧ isBlank c = false

theorem Solid.append (solid : Solid s) (solid' : Solid t) (between : List Char) : Solid (s ++ between ++ t) := by
  obtain ⟨c, tail, rfl, first⟩ := solid.first
  obtain ⟨front, d, rfl, last⟩ := solid'.last
  exact ⟨⟨c, _, rfl, first⟩, ⟨c :: tail ++ between ++ front, d, by simp, last⟩⟩

theorem Solid.of_forall (some : s ≠ []) (none : ∀ c ∈ s, isBlank c = false) : Solid s := by
  constructor
  · obtain ⟨c, tail, rfl⟩ := List.exists_cons_of_ne_nil some
    exact ⟨c, tail, rfl, none c List.mem_cons_self⟩
  · exact ⟨s.dropLast, s.getLast some, (List.dropLast_concat_getLast some).symm, none _ (List.getLast_mem some)⟩

/-- Trimming takes the blanks around a text away. -/
theorem trim_append (solid : Solid s) (blank : ∀ c ∈ front, isBlank c = true) (blank' : ∀ c ∈ back, isBlank c = true) :
    trim (front ++ s ++ back) = s := by
  have start : trimStart (front ++ s ++ back) = s ++ back := by
    obtain ⟨c, tail, rfl, first⟩ := solid.first
    rw [trimStart, List.append_assoc, List.dropWhile_append_of_pos blank, List.cons_append,
      List.dropWhile_cons_of_neg (by simp [first])]
  obtain ⟨front', c, rfl, last⟩ := solid.last
  rw [trim, start, dropEndWhile, List.reverse_append, List.dropWhile_append_of_pos (by simpa using blank'),
    List.reverse_append, List.reverse_singleton, List.singleton_append, List.dropWhile_cons_of_neg (by simp [last])]
  simp

/-- What stands first behind the blanks stands first in the trimmed text. -/
theorem exists_trim_eq_cons {c : Char} (blank : ∀ c ∈ front, isBlank c = true) (first : isBlank c = false) :
    ∃ rest, trim (front ++ c :: s) = c :: rest := by
  rw [trim, trimStart, List.dropWhile_append_of_pos blank, List.dropWhile_cons_of_neg (by simp [first]), dropEndWhile,
    List.reverse_cons, List.dropWhile_append]
  split
  · exact ⟨[], by simp [first]⟩
  · exact ⟨_, by rw [List.reverse_append]; rfl⟩

theorem trim_of_solid (solid : Solid s) : trim s = s := by
  have trimmed : trim ([] ++ s ++ []) = s := trim_append solid (by simp) (by simp)
  simpa using trimmed

theorem trim_cons_of_solid {c : Char} (blank : isBlank c = true) (solid : Solid s) : trim (c :: s) = s := by
  have trimmed : trim ([c] ++ s ++ []) = s := trim_append solid (by simpa using blank) (by simp)
  simpa using trimmed

/-- A text is its trimmed text with blanks around it. -/
theorem exists_append_trim (s : List Char) : ∃ front back, s = front ++ trim s ++ back ∧
    (∀ c ∈ front, isBlank c = true) ∧ ∀ c ∈ back, isBlank c = true := by
  refine ⟨s.takeWhile isBlank, ((trimStart s).reverse.takeWhile isBlank).reverse, ?_, ?_, ?_⟩
  · have inner : trim s ++ ((trimStart s).reverse.takeWhile isBlank).reverse = trimStart s := by
      rw [trim, dropEndWhile, ← List.reverse_append, List.takeWhile_append_dropWhile, List.reverse_reverse]
    rw [List.append_assoc, inner, trimStart, List.takeWhile_append_dropWhile]
  · exact fun c inside => List.mem_takeWhile_imp inside
  · intro c inside
    rw [List.mem_reverse] at inside
    exact List.mem_takeWhile_imp inside

/-- What is left by trimming can be trimmed no further. -/
theorem solid_trim (some : trim s ≠ []) : Solid (trim s) := by
  constructor
  · have first : trimStart s ≠ [] := by
      intro none
      rw [trim, none] at some
      exact some rfl
    obtain ⟨rest, starts⟩ := dropEndWhile_prefix isBlank (trimStart s)
    obtain ⟨c, tail, isTrim⟩ := List.exists_cons_of_ne_nil some
    rw [← trim, isTrim] at starts
    have notBlank := List.head_dropWhile_not isBlank first
    refine ⟨c, tail, isTrim, ?_⟩
    have head : (s.dropWhile isBlank).head first = c := by
      simp only [trimStart] at starts
      simp only [← starts, List.cons_append, List.head_cons]
    rwa [head] at notBlank
  · obtain ⟨front, c, isTrim⟩ := (List.eq_nil_or_concat (trim s)).resolve_left some
    rw [List.concat_eq_append] at isTrim
    refine ⟨front, c, isTrim, ?_⟩
    have reversed : (trimStart s).reverse.dropWhile isBlank = c :: front.reverse := by
      have := congrArg List.reverse isTrim
      simpa [trim, dropEndWhile] using this
    have stays : (trimStart s).reverse.dropWhile isBlank ≠ [] := by simp [reversed]
    have notBlank := List.head_dropWhile_not isBlank stays
    simpa only [reversed, List.head_cons] using notBlank

/-- Blanks at the end of a text are trimmed away. -/
theorem trim_append_blanks (some : trim s ≠ []) (blank : ∀ c ∈ t, isBlank c = true) : trim (s ++ t) = trim s := by
  obtain ⟨front, back, isText, isFront, isBack⟩ := exists_append_trim s
  conv_lhs => rw [isText, List.append_assoc]
  refine trim_append (solid_trim some) isFront fun c inside => ?_
  exact (List.mem_append.mp inside).elim (isBack c) (blank c)

/-- What stands behind blanks at the end of a text stands behind a blank in the trimmed text. -/
theorem exists_trim_append_cons (some : trim s ≠ []) (gap : t ≠ []) (blank : ∀ c ∈ t, isBlank c = true)
    (notBlank : isBlank c = false) (rest : List Char) : ∃ b between rest',
    trim (s ++ (t ++ c :: rest)) = trim s ++ b :: (between ++ c :: rest') ∧ isBlank b = true := by
  obtain ⟨front, back, isText, isFront, isBack⟩ := exists_append_trim s
  obtain ⟨d, tail, isTrim, first⟩ := (solid_trim some).first
  have start : trimStart (s ++ (t ++ c :: rest)) = trim s ++ (back ++ t) ++ c :: rest := by
    conv_lhs => rw [isText]
    rw [trimStart, isTrim, List.append_assoc, List.append_assoc, List.dropWhile_append_of_pos isFront, List.cons_append,
      List.dropWhile_cons_of_neg (by simp [first])]
    simp
  have blanks : back ++ t ≠ [] := by simp [gap]
  obtain ⟨b, between, isGap⟩ := List.exists_cons_of_ne_nil blanks
  refine ⟨b, between, dropEndWhile isBlank rest, ?_, ?_⟩
  · rw [trim, start, dropEndWhile_append_cons notBlank, isGap]
    simp
  · have inside : b ∈ back ++ t := by simp [isGap]
    exact (List.mem_append.mp inside).elim (isBack b) (blank b)

end Trimming

/-! ### Words -/

theorem wordsAfter_ne_nil {word : List Char} (started : word ≠ []) (s : List Char) : wordsAfter word s ≠ [] := by
  induction s generalizing word with
  | nil => simp [wordsAfter, started]
  | cons c s ih =>
    rw [wordsAfter]
    split
    · simp [started]
    · exact ih (List.cons_ne_nil c word)

theorem wordsAfter_append_cons {word : List Char} (blank : isBlank c = true) (s rest : List Char) :
    wordsAfter word (s ++ c :: rest) = wordsAfter word s ++ words rest := by
  induction s generalizing word with
  | nil =>
    rw [List.nil_append, wordsAfter, wordsAfter, if_pos blank]
    split <;> rfl
  | cons d s ih =>
    rw [List.cons_append, wordsAfter, wordsAfter]
    split
    · split <;> simp [ih]
    · exact ih

/-- A blank separates words. -/
theorem words_append_cons (blank : isBlank c = true) (s rest : List Char) :
    words (s ++ c :: rest) = words s ++ words rest :=
  wordsAfter_append_cons blank s rest

/-- A character that is not blank belongs to a word. -/
theorem words_ne_nil (notBlank : isBlank c = false) (inside : c ∈ s) : words s ≠ [] := by
  have within (word : List Char) : wordsAfter word s ≠ [] := by
    induction s generalizing word with
    | nil => cases inside
    | cons d s ih =>
      rw [wordsAfter]
      split
      · next blank =>
        have later : c ∈ s := by
          refine (List.mem_cons.mp inside).resolve_left ?_
          rintro rfl
          rw [blank] at notBlank
          cases notBlank
        split
        · exact ih later []
        · exact List.cons_ne_nil _ _
      · exact wordsAfter_ne_nil (List.cons_ne_nil d word) s
  exact within []

/-! ### Lines -/

theorem linesAfter_append_newline {α : Type} {close : List Char → α} {line : List Char} (free : '\n' ∉ s)
    (rest : List Char) :
    linesAfter close line (s ++ '\n' :: rest) = close (s.reverse ++ line) :: linesAfter close [] rest := by
  induction s generalizing line with
  | nil => rfl
  | cons c s ih =>
    rw [List.mem_cons, not_or] at free
    rw [List.cons_append, linesAfter, if_neg (Ne.symm free.1), ih free.2, List.reverse_cons, List.append_assoc]
    rfl

theorem map_linesAfter {α β : Type} {close : List Char → α} (f : α → β) (line : List Char) :
    (linesAfter close line s).map f = linesAfter (fun line => f (close line)) line s := by
  induction s generalizing line with
  | nil => cases line <;> rfl
  | cons c s ih =>
    rw [linesAfter, linesAfter]
    split
    · rw [List.map_cons, ih]
    · exact ih _

theorem map_text_sizedLines (s : List Char) : (sizedLines s).map Line.text = lines s :=
  map_linesAfter Line.text []

theorem closeLine_reverse (free : '\r' ∉ s) : closeLine s.reverse = s := by
  unfold closeLine
  split
  · next isLine =>
    refine absurd ?_ free
    rw [← List.mem_reverse, isLine]
    exact List.mem_cons_self
  · rw [List.reverse_reverse]

theorem byteCount_reverse (s : List Char) : byteCount s.reverse = byteCount s := by
  refine (List.reverse_perm s).foldl_eq' (fun c _ d _ n => ?_) 0
  omega

theorem map_text_ofText (texts : List (List Char)) : (texts.map Line.ofText).map Line.text = texts := by
  rw [List.map_map]
  exact List.map_id texts

/-- Lines that are written one after another are read again, and take up what they were written with. -/
theorem sizedLines_flatMap {texts : List (List Char)} (free : ∀ s ∈ texts, '\n' ∉ s ∧ '\r' ∉ s) :
    sizedLines (texts.flatMap fun s => s ++ ['\n']) = texts.map Line.ofText := by
  induction texts with
  | nil => rfl
  | cons s texts ih =>
    rw [List.forall_mem_cons] at free
    rw [List.flatMap_cons, List.append_assoc, List.singleton_append, sizedLines, linesAfter_append_newline free.1.1,
      List.append_nil, closeLine_reverse free.1.2, byteCount_reverse, ← sizedLines, ih free.2]
    rfl

/-! ### Letters -/

/-- The lines letter by letter. A literal unifies with its letters at no cost, while evaluating it decodes its bytes. -/
theorem map_toList_of_spelled {lines : List String} {spelled : List (List Char)}
    (spells : List.Forall₂ (fun line letters => line = String.ofList letters) lines spelled) :
    lines.map String.toList = spelled := by
  induction spells with
  | nil => rfl
  | cons same _ ih => simp [same, ih]

end SmaliTrace.Text
