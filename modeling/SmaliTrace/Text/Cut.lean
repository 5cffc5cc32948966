/-!
Cutting a text at the occurrences of a fixed pattern, and the tests for how a text starts, ends or
what it contains; trimming a text of blanks, and cutting it into words. Main statement: a cut loses nothing,
`s = before ++ pattern ++ after`.
-/
namespace SmaliTrace.Text

/-- The text before and after the first occurrence of `pat`. -/
def cut? (pat : List Char) : List Char → Option (List Char × List Char)
  | [] => if pat.isEmpty then some ([], []) else none
  | c :: rest =>
    match pat.isPrefixOf? (c :: rest) with
    | some after => some ([], after)
    | none => (cut? pat rest).map fun (before, after) => (c :: before, after)

theorem append_of_isPrefixOf? {pat s after : List Char} (h : pat.isPrefixOf? s = some after) :
    s = pat ++ after := by
  induction pat generalizing s with
  | nil =>
    change some s = some after at h
    simpa using h
  | cons p pat ih =>
    cases s with
    | nil => cases h
    | cons c s =>
      change (if p == c then pat.isPrefixOf? s else none) = some after at h
      split at h
      · rename_i same
        simp at same
        simp [same, ih h]
      · cases h

theorem eq_of_cut? {pat s before after : List Char} (h : cut? pat s = some (before, after)) :
    s = before ++ pat ++ after := by
  induction s generalizing before with
  | nil =>
    simp only [cut?] at h
    split at h <;> simp_all
  | cons c rest ih =>
    simp only [cut?] at h
    split at h
    · rename_i found
      simp only [Option.some.injEq, Prod.mk.injEq] at h
      obtain ⟨rfl, rfl⟩ := h
      simpa using append_of_isPrefixOf? found
    · simp only [Option.map_eq_some_iff, Prod.mk.injEq, Prod.exists] at h
      obtain ⟨b, a, found, rfl, rfl⟩ := h
      simp [ih found]

/-- The parts of the text between the occurrences of `pat`, which is not empty. -/
def pieces (pat s : List Char) : List (List Char) :=
  match h : cut? pat s with
  | none => [s]
  | some (before, after) =>
    if nonempty : pat = [] then [s]
    else
      have : after.length < s.length := by
        have eq := eq_of_cut? h
        have := List.length_pos_iff.mpr nonempty
        simp [eq]; omega
      before :: pieces pat after
termination_by s.length

/-- The text before and after the last occurrence of the character `c`. -/
def cutLast? (c : Char) : List Char → Option (List Char × List Char)
  | [] => none
  | d :: rest =>
    match cutLast? c rest with
    | some (before, after) => some (d :: before, after)
    | none => if d = c then some ([], rest) else none

/-- The text starts with `pat`. -/
def startsWith (pat : String) (s : List Char) : Bool := pat.toList.isPrefixOf s

/-- The text ends with `pat`. -/
def endsWith (pat : String) (s : List Char) : Bool := pat.toList.isSuffixOf s

/-- `pat` occurs in the text. -/
def contains (pat : String) (s : List Char) : Bool := (cut? pat.toList s).isSome

/-- The text after `pat` if it starts so, else the whole text. -/
def without (pat : String) (s : List Char) : List Char :=
  (pat.toList.isPrefixOf? s).getD s

/-- Joins the texts, `separator` between neighbours. -/
def join (separator : String) (parts : List String) : String := String.intercalate separator parts

/-! ### Blanks, trimming and words -/

/-- The blank characters: tab to carriage return, the space, next line, and the Unicode spaces. -/
def isBlank (c : Char) : Bool :=
  let n := c.toNat
  n == 0x20 || (0x09 ≤ n && n ≤ 0x0d) || n == 0x85 || n == 0xa0 || n == 0x1680 ||
    (0x2000 ≤ n && n ≤ 0x200a) || n == 0x2028 || n == 0x2029 || n == 0x202f || n == 0x205f ||
    n == 0x3000

/-- The text without the blanks at its start. -/
def trimStart (s : List Char) : List Char := s.dropWhile isBlank

/-- The text without the trailing characters that satisfy `p`. -/
def dropEndWhile (p : Char → Bool) (s : List Char) : List Char := (s.reverse.dropWhile p).reverse

/-- The text without the blanks at either end. -/
def trim (s : List Char) : List Char := dropEndWhile isBlank (trimStart s)

/-- Cuts the text at its blanks; `word` holds the characters of the open word, last first. -/
def wordsAfter (word : List Char) : List Char → List (List Char)
  | [] => if word.isEmpty then [] else [word.reverse]
  | c :: rest =>
    if isBlank c then
      if word.isEmpty then wordsAfter [] rest else word.reverse :: wordsAfter [] rest
    else wordsAfter (c :: word) rest

/-- The maximal runs of characters that are not blank, in order. -/
def words (s : List Char) : List (List Char) := wordsAfter [] s

end SmaliTrace.Text
