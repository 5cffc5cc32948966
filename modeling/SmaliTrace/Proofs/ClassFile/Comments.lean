import SmaliTrace.Proofs.ClassFile.Annotations
import SmaliTrace.Proofs.Smali.Decoder

/-!
Comments behind the lines of a class file. The lines of a body are decoded without them, and most other lines are read
by their first words. What is compared as a whole, or read up to its end, is read with the comment: an end of a method
or of a block then ends nothing, and a declaration is refused or has the comment in its value.
-/
namespace SmaliTrace.ClassFile
open SmaliTrace.Smali

/-- The one line is the other, which is not blank and closes its quotes, with white space and a comment behind it. -/
structure Commented (raw raw' : List Char) : Prop where
  filled : Text.trim raw ≠ []
  closed : QuoteState.run {} (stripComment raw) = {}
  tail : ∃ gap comment, gap ≠ [] ∧ (∀ c ∈ gap, Text.isBlank c = true) ∧ raw' = raw ++ (gap ++ '#' :: comment)

/-- The reader compares the line as a whole or reads it up to its end, and so would see a comment behind it. -/
def ParseState.seesComment (s : ParseState) (raw : List Char) : Bool :=
  let text := Text.trim raw
  if s.current.isSome then text = ".end method".toList
  else if 0 < s.annotations then text = ".end annotation".toList || text = ".end subannotation".toList
  else
    match Text.words text with
    | [] => false
    | word :: operands =>
      [".class", ".source", ".field", ".method"].contains (String.ofList word) ||
        [".super", ".implements"].contains (String.ofList word) && operands.isEmpty

namespace ParseState

variable {s : ParseState} {raw : List Char}

theorem seesComment_of_open {o : OpenMethod} (isOpen : s.current = some o) :
    s.seesComment raw = decide (Text.trim raw = ".end method".toList) := by
  unfold seesComment
  dsimp only
  rw [isOpen, if_pos Option.isSome_some]

theorem seesComment_of_annotated (isClosed : s.current = none) (inside : 0 < s.annotations) : s.seesComment raw =
    (decide (Text.trim raw = ".end annotation".toList) || decide (Text.trim raw = ".end subannotation".toList)) := by
  unfold seesComment
  dsimp only
  rw [isClosed, if_neg nofun, if_pos inside]

end ParseState

namespace Commented

variable {raw raw' : List Char} {s : ParseState} {n : Nat}

/-! ### What the reader looks at -/

section
variable (commented : Commented raw raw')
include commented

theorem exists_trim : ∃ b between rest,
    Text.trim raw' = Text.trim raw ++ b :: (between ++ '#' :: rest) ∧ Text.isBlank b = true := by
  obtain ⟨gap, comment, isGap, blank, rfl⟩ := commented.tail
  exact Text.exists_trim_append_cons commented.filled isGap blank (by decide) comment

/-- A beginning without blanks is a beginning of both lines or of none. -/
theorem startsWith {pat : String} (word : (pat.toList.any Text.isBlank) = false) :
    Text.startsWith pat (Text.trim raw') = Text.startsWith pat (Text.trim raw) := by
  obtain ⟨b, between, rest, trimmed, blank⟩ := commented.exists_trim
  rw [trimmed]
  refine Text.startsWith_append_cons (fun inside => ?_) _ _
  rw [List.any_eq_false] at word
  exact word b inside blank

/-- A line with a comment is not one without a number sign. -/
theorem trim_ne {text : List Char} (free : '#' ∉ text) : Text.trim raw' ≠ text := by
  obtain ⟨b, between, rest, trimmed, -⟩ := commented.exists_trim
  rintro rfl
  rw [trimmed] at free
  simp at free

/-- The comment is one or more words behind those of the line. -/
theorem exists_words : ∃ word words,
    Text.words (Text.trim raw') = Text.words (Text.trim raw) ++ word :: words := by
  obtain ⟨b, between, rest, trimmed, blank⟩ := commented.exists_trim
  have sign : Text.words (between ++ '#' :: rest) ≠ [] := by
    refine Text.words_ne_nil (c := '#') (by decide) ?_
    simp
  obtain ⟨word, words, isComment⟩ := List.exists_cons_of_ne_nil sign
  exact ⟨word, words, by rw [trimmed, Text.words_append_cons blank, isComment]⟩

theorem isSkipped_eq : isSkipped raw' = isSkipped raw := by
  obtain ⟨b, between, rest, trimmed, -⟩ := commented.exists_trim
  have filled : (Text.trim raw').isEmpty = false := by
    rw [trimmed]
    simp
  have filled' : (Text.trim raw).isEmpty = false := by simpa using commented.filled
  rw [isSkipped, isSkipped, filled, filled', commented.startsWith (by decide)]

theorem addLine (o : OpenMethod) (path : String) (n : Nat) : o.addLine path n raw' = o.addLine path n raw := by
  obtain ⟨gap, comment, -, blank, rfl⟩ := commented.tail
  have same := decode_congr (d := o.decoder) (trim_stripComment_append commented.filled commented.closed
    (.comment blank comment))
  unfold OpenMethod.addLine
  rw [same]

/-! ### Lines that the comment leaves as they are -/

theorem annotationDepth_eq (depth : Nat)
    (unseen : Text.trim raw ≠ ".end annotation".toList ∧ Text.trim raw ≠ ".end subannotation".toList) :
    annotationDepth depth (Text.trim raw') = annotationDepth depth (Text.trim raw) := by
  have ends {text : List Char} (free : '#' ∉ text) : decide (Text.trim raw' = text) = false :=
    decide_eq_false (commented.trim_ne free)
  have ends' {text : List Char} (other : Text.trim raw ≠ text) : decide (Text.trim raw = text) = false :=
    decide_eq_false other
  unfold annotationDepth
  rw [ends (by decide), ends (by decide), ends' unseen.1, ends' unseen.2, commented.startsWith (by decide),
    commented.startsWith (by decide)]

/-- Of the lines that are read by their words, the first two words are. -/
theorem declare_eq (outside : s.current = none ∧ s.annotations = 0) (unseen : s.seesComment raw = false) (n : Nat) :
    s.declare n (Text.trim raw') = s.declare n (Text.trim raw) := by
  obtain ⟨first, comment, words⟩ := commented.exists_words
  unfold ParseState.seesComment at unseen
  simp only [outside.1, outside.2, Option.isSome_none, Bool.false_eq_true, if_false, Nat.lt_irrefl] at unseen
  cases isLine : Text.words (Text.trim raw) with
  | nil =>
    obtain ⟨c, tail, isText, notBlank⟩ := (Text.solid_trim commented.filled).first
    exact absurd isLine (Text.words_ne_nil notBlank (by simp [isText]))
  | cons word operands =>
    rw [isLine] at unseen words
    simp only [Bool.or_eq_false_iff, Bool.and_eq_false_iff] at unseen
    obtain ⟨whole, operand⟩ := unseen
    have apart {directive : String} (isWhole : directive ∈ [".class", ".source", ".field", ".method"]) :
        String.ofList word ≠ directive := by
      rintro rfl
      simp [isWhole] at whole
    have filled {directive : String} (takes : directive ∈ [".super", ".implements"])
        (same : String.ofList word = directive) : operands ≠ [] := by
      rintro rfl
      simp [same, takes] at operand
    have noClass : String.ofList word ≠ ".class" := apart (by decide)
    have noSource : String.ofList word ≠ ".source" := apart (by decide)
    have noField : String.ofList word ≠ ".field" := apart (by decide)
    have noMethod : String.ofList word ≠ ".method" := apart (by decide)
    unfold ParseState.declare
    dsimp only
    rw [words, isLine]
    dsimp only [List.cons_append]
    rw [if_neg noClass, if_neg noClass]
    by_cases isSuper : String.ofList word = ".super"
    · obtain ⟨name, others, rfl⟩ := List.exists_cons_of_ne_nil (filled (by decide) isSuper)
      rw [if_pos isSuper, if_pos isSuper]
      rfl
    · rw [if_neg isSuper, if_neg isSuper]
      by_cases isInterface : String.ofList word = ".implements"
      · obtain ⟨name, others, rfl⟩ := List.exists_cons_of_ne_nil (filled (by decide) isInterface)
        rw [if_pos isInterface, if_pos isInterface]
        rfl
      · rw [if_neg isInterface, if_neg isInterface, if_neg noSource, if_neg noSource, if_neg noField, if_neg noField,
          if_neg noMethod, if_neg noMethod]

/-- A line whose comment is not seen does what it does without it. -/
theorem advance_eq (unseen : s.seesComment raw = false) (n : Nat) : s.advance n raw' = s.advance n raw := by
  have skipped := commented.isSkipped_eq
  unfold isSkipped at skipped
  unfold ParseState.advance
  dsimp only
  rw [skipped]
  split
  · rfl
  · cases isOpen : s.current with
    | some o =>
      have goesOn : Text.trim raw ≠ ".end method".toList := by
        rw [ParseState.seesComment_of_open isOpen] at unseen
        exact of_decide_eq_false unseen
      dsimp only
      rw [if_neg goesOn, if_neg (commented.trim_ne (by decide)), commented.addLine]
    | none =>
      dsimp only
      by_cases inside : 0 < s.annotations
      · rw [ParseState.seesComment_of_annotated isOpen inside, Bool.or_eq_false_iff] at unseen
        have goesOn := And.intro (of_decide_eq_false unseen.1) (of_decide_eq_false unseen.2)
        rw [if_pos inside, if_pos inside, commented.annotationDepth_eq _ goesOn]
      · rw [if_neg inside, if_neg inside]
        exact commented.declare_eq ⟨isOpen, by omega⟩ unseen n

theorem step_eq (unseen : s.seesComment raw = false) (n : Nat) : s.step n raw' = s.step n raw := by
  rw [ParseState.step, ParseState.step, commented.advance_eq unseen]

end

end Commented

/-! ### Files -/

/-- White space and a comment behind a line change nothing in what the file is read as, unless the reader comes to the
line and sees them, or there is no room for them. -/
theorem parse_eq_of_commented {path text text' : String} {before after : List Text.Line} {line line' : Text.Line}
    (commented : Commented line.text line'.text) (fit : line.fits = true) (fit' : line'.fits = true)
    (stands : Text.sizedLines text.toList = before ++ line :: after)
    (stands' : Text.sizedLines text'.toList = before ++ line' :: after)
    (unseen : ∀ s, ParseState.run { cls := { path := path } } 1 (before.map Text.Line.text) = .ok s →
      s.seesComment line.text = false) :
    parse path text' = parse path text := by
  rw [parse, parse, stands, stands']
  by_cases heading : ∀ line ∈ before, line.fits = true
  swap
  · rw [ParseState.readLines_append_of_long heading, ParseState.readLines_append_of_long heading]
  rw [ParseState.readLines_append heading, ParseState.readLines_append heading]
  cases ran : ParseState.run { cls := { path := path } } 1 (before.map Text.Line.text) with
  | error e => rfl
  | ok s =>
    simp only [bind, Except.bind, ParseState.readLines_cons, fit, fit', if_true, commented.step_eq (unseen s ran)]

/-- White space and a comment, as they may stand behind a line. -/
def note : String := "\t # text"

theorem commented_note {line : String} (filled : Text.trim line.toList ≠ [])
    (closed : (QuoteState.run {} (stripComment line.toList)).quoted = false ∧
      (QuoteState.run {} (stripComment line.toList)).escaped = false) :
    Commented line.toList (line ++ note).toList where
  filled := filled
  closed := by
    cases isState : QuoteState.run {} (stripComment line.toList) with
    | mk quoted escaped =>
      rw [isState] at closed
      obtain ⟨rfl, rfl⟩ := closed
      rfl
  tail := ⟨['\t', ' '], " text".toList, by simp, List.all_eq_true.mp (by decide), by simp [note]⟩

/-- The lines of a class up to one in a body. -/
def bodyHeading : List String :=
  [".class public LMain;", ".super Ljava/lang/Object;", ".method public static run()V", "    .registers 1"]

/-- A line of the body, which has the sign of a comment in its literal. -/
def signLine : String := "    const-string v0, \"# of items\""

theorem parse_signLine :
    Commented signLine.toList (signLine ++ note).toList ∧
    (∀ line ∈ [signLine, signLine ++ note], (Text.Line.ofText line.toList).fits = true ∧
      Text.sizedLines (fileText (bodyHeading ++ line :: ["    return-void", ".end method"])).toList =
        (bodyHeading.map String.toList).map .ofText ++ .ofText line.toList ::
          (["    return-void", ".end method"].map String.toList).map .ofText) ∧
    (∀ s, ParseState.run { cls := { path := "Main.smali" } } 1 (bodyHeading.map String.toList) = .ok s →
      s.seesComment signLine.toList = false) ∧
    parse "Main.smali" (fileText (bodyHeading ++ (signLine ++ note) :: ["    return-void", ".end method"])) =
      parse "Main.smali" (fileText (bodyHeading ++ signLine :: ["    return-void", ".end method"])) := by
  have heading : bodyHeading.map String.toList = _ := Text.map_toList_of_spelled (by repeat' constructor)
  have rest : ["    return-void", ".end method"].map String.toList = _ := Text.map_toList_of_spelled (by repeat' constructor)
  have sign : signLine.toList = _ := String.toList_ofList
  have behind : note.toList = _ := String.toList_ofList
  have commented : Commented signLine.toList (signLine ++ note).toList := by
    refine commented_note ?_ ?_ <;> rw [sign] <;> decide +kernel
  have stand : ∀ line ∈ [signLine, signLine ++ note], (Text.Line.ofText line.toList).fits = true ∧
      Text.sizedLines (fileText (bodyHeading ++ line :: ["    return-void", ".end method"])).toList =
        (bodyHeading.map String.toList).map .ofText ++ .ofText line.toList ::
          (["    return-void", ".end method"].map String.toList).map .ofText := by
    have proper : ∀ letters ∈ [signLine.toList, signLine.toList ++ note.toList], (Text.Line.ofText letters).fits = true ∧
        ∀ other ∈ bodyHeading.map String.toList ++ letters :: ["    return-void", ".end method"].map String.toList,
          '\n' ∉ other ∧ '\r' ∉ other := by
      rw [heading, rest, sign, behind]
      decide +kernel
    intro line isLine
    have isLetters : line.toList ∈ [signLine.toList, signLine.toList ++ note.toList] := by
      simpa [← String.toList_append, String.toList_inj] using isLine
    obtain ⟨fits, free⟩ := proper _ isLetters
    refine ⟨fits, ?_⟩
    rw [← List.map_cons, ← List.map_append]
    exact sizedLines_fileText List.map_append free
  have unseen : ∀ s, ParseState.run { cls := { path := "Main.smali" } } 1 (bodyHeading.map String.toList) = .ok s →
      s.seesComment signLine.toList = false := by
    have passed : ((ParseState.run { cls := { path := "Main.smali" } } 1 (bodyHeading.map String.toList)).toOption.all
        fun s => !s.seesComment signLine.toList) = true := by
      rw [heading, sign]
      decide +kernel
    intro s ran
    simpa using holds_of_all passed s ran
  obtain ⟨fits, stands⟩ := stand signLine List.mem_cons_self
  obtain ⟨fits', stands'⟩ := stand (signLine ++ note) (List.mem_cons_of_mem _ List.mem_cons_self)
  refine ⟨commented, stand, unseen, parse_eq_of_commented commented fits fits' stands stands' ?_⟩
  rw [Text.map_text_ofText]
  exact unseen

/-- A class with a block, a field and a method. -/
def blockAndMembers : List String :=
  [".class public LMain;", ".source \"Main.java\"", ".annotation runtime LNote;", ".end annotation",
    ".field public static key:I = 0x1", ".method public static run()V", "    .registers 1", "    return-void",
    ".end method"]

/-- The source, the values of the fields and the number of methods of a class that is read. -/
def outline : Except ParseError ClassDecl → Option (String × List String × Nat)
  | .ok c => some (c.source, c.fields.toList.map FieldDecl.value, c.methods.size)
  | .error _ => none

/-- A comment behind a declaration, an end of a block or an end of a method makes another file of it. -/
theorem comments_of_declarations_seen :
    (∀ i ∈ [0, 1, 3, 4, 5, 8], ∃ line ∈ blockAndMembers[i]?, Commented line.toList (line ++ note).toList) ∧
    ∀ i ∈ [0, 1, 3, 4, 5, 8], parse "Main.smali" (fileText (blockAndMembers.modify i (· ++ note))) ≠
      parse "Main.smali" (fileText blockAndMembers) := by
  have spelled : blockAndMembers.map String.toList = _ := Text.map_toList_of_spelled (by repeat' constructor)
  have behind : note.toList = _ := String.toList_ofList
  constructor
  · have bound : ∀ i ∈ [0, 1, 3, 4, 5, 8], i < blockAndMembers.length := by decide
    have proper : ∀ letters ∈ blockAndMembers.map String.toList, Text.trim letters ≠ [] ∧
        (QuoteState.run {} (stripComment letters)).quoted = false ∧
        (QuoteState.run {} (stripComment letters)).escaped = false := by
      rw [spelled]
      decide +kernel
    intro i place
    have isLine := List.getElem?_eq_getElem (bound i place)
    obtain ⟨filled, closed⟩ := proper _ (List.mem_map_of_mem (List.getElem_mem (bound i place)))
    exact ⟨_, isLine, commented_note filled closed⟩
  · have marked : ∀ i, (blockAndMembers.modify i (· ++ note)).map String.toList =
        (blockAndMembers.map String.toList).modify i (· ++ note.toList) := by
      intro i
      refine List.ext_getElem? fun n => ?_
      by_cases same : i = n <;> simp [same, Function.comp_def]
    have free : ∀ letters ∈ blockAndMembers.map String.toList, '\n' ∉ letters ∧ '\r' ∉ letters := by
      rw [spelled]
      decide +kernel
    have freeMarked : ∀ i ∈ [0, 1, 3, 4, 5, 8], ∀ letters ∈ (blockAndMembers.modify i (· ++ note)).map String.toList,
        '\n' ∉ letters ∧ '\r' ∉ letters := by
      simp only [marked, spelled, behind]
      decide +kernel
    have differ : ∀ i ∈ [0, 1, 3, 4, 5, 8],
        outline (ParseState.readLines { cls := { path := "Main.smali" } } 1
          (((blockAndMembers.modify i (· ++ note)).map String.toList).map .ofText)) ≠
        outline (ParseState.readLines { cls := { path := "Main.smali" } } 1
          ((blockAndMembers.map String.toList).map .ofText)) := by
      simp only [marked, spelled, behind]
      decide +kernel
    intro i place same
    rw [parse, parse, sizedLines_fileText rfl (freeMarked i place), sizedLines_fileText rfl free] at same
    exact differ i place (congrArg outline same)

end SmaliTrace.ClassFile
