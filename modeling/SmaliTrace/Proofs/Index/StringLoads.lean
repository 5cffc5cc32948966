import SmaliTrace.Proofs.ClassFile.Bodies
import SmaliTrace.Proofs.Index.Exclusion
import SmaliTrace.Proofs.Smali.Literal

/-!
String constants from the class file to the index. A value that is written between double quotes is decoded as it was
written, has the value that was quoted, and is found under that value, whatever characters it has and whatever comment
follows it.
-/
namespace SmaliTrace
open SmaliTrace.ClassFile SmaliTrace.Smali
open SmaliTrace.Text (Octets)

namespace Index

variable {p : Program} {excluded : List String} {id : MethodId}

/-- An analyzed method has no fault. -/
theorem exists_method_of_isAnalyzed (analyzed : (ofProgram p excluded).index.isAnalyzed id = true) :
    ∃ m, p.method? id = some m ∧ m.fault = none := by
  have inside := (List.mem_filter.mp (isAnalyzed_ofProgram.mp analyzed)).2
  obtain ⟨m, isMethod, takes⟩ := (Option.any_eq_true _ _).mp (Bool.and_eq_true_iff.mp inside).2
  simp only [analyzable, Bool.and_eq_true, Option.isNone_iff_eq_none] at takes
  exact ⟨m, isMethod, takes.1.1⟩

/-- The index lists the line of an analyzed method that loads a literal under the value of the literal. -/
theorem mem_literalSites {i : Nat} {l : CodeLine} {r : Register} {literal : String} {v : Octets}
    (analyzed : (ofProgram p excluded).index.isAnalyzed id = true) (isLine : p.line? id i = some l)
    (loads : l.operation = .constLiteral r literal) (value : Literal.value literal = .ok v) :
    .body id i ∈ (ofProgram p excluded).index.literalSites v := by
  rw [index_ofProgram, literalSites_finishedIn (.refl _), scan, List.mem_filter]
  constructor
  · refine List.mem_flatMap.mpr ⟨id, isAnalyzed_ofProgram.mp analyzed, ?_⟩
    obtain ⟨m, isMethod, atIndex⟩ := Option.bind_eq_some_iff.mp isLine
    obtain ⟨bound, -⟩ := Array.getElem?_eq_some_iff.mp atIndex
    simp only [bodyLines, isMethod]
    exact List.mem_map.mpr ⟨i, List.mem_range.mpr bound, rfl⟩
  · rw [Program.operation?, isLine, Option.map_some, Option.any_some, isLoadOf_iff, loads, literalKey?, value]
    rfl

/-- A quoted value is decoded and found under the value. -/
theorem quote_reaches_index {r : Register} (accepted : isRegister r.toList = true) (v : Octets)
    {indent tail : List Char} (blank : ∀ c ∈ indent, Text.isBlank c = true) (trailing : Trailing tail) :
    (∀ d : Decoder, d.payload = none ∧ d.annotations = 0 →
      d.decode (indent ++ (literalLine "const-string" r v.quote).toList ++ tail) =
        .ok (⟨"const-string", .constLiteral r v.quote, literalLine "const-string" r v.quote⟩, d)) ∧
    Literal.value v.quote = .ok v ∧
    ∀ (p : Program) (excluded : List String) (path text : String) (c : ClassDecl) (cls : Nat)
      (before : List (List Char)) (s : ParseState) (o : OpenMethod), parse path text = .ok c →
      p.classes[cls]? = some c →
      ReadsInBody path text before (indent ++ (literalLine "const-string" r v.quote).toList ++ tail) s o →
      (ofProgram p excluded).index.isAnalyzed ⟨cls, s.cls.methods.size⟩ = true →
      ∃ (i : Nat) (l : CodeLine), p.line? ⟨cls, s.cls.methods.size⟩ i = some l ∧ l.number = before.length + 1 ∧
        l.instruction.text = literalLine "const-string" r v.quote ∧
        .body ⟨cls, s.cls.methods.size⟩ i ∈ (ofProgram p excluded).index.literalSites v := by
  have quoted := quoted_quote v
  have decoded (d : Decoder) (outside : d.payload = none ∧ d.annotations = 0) :=
    quoted.decode_eq outside loadsLiteral_constString accepted blank trailing
  refine ⟨decoded, quoted.value_eq, ?_⟩
  intro p excluded path text c cls before s o parsed isClass reads analyzed
  obtain ⟨m, isMethod, sound⟩ := exists_method_of_isAnalyzed analyzed
  have inClass : c.methods[s.cls.methods.size]? = some m := by simpa [Program.method?, isClass] using isMethod
  obtain ⟨rest, starts⟩ := exists_trim_literalLine loadsLiteral_constString r v.quote tail blank
  have inBody : InBody (indent ++ (literalLine "const-string" r v.quote).toList ++ tail) := by
    constructor
    · rw [starts]
      rfl
    · rw [starts]
      intro same
      cases same
  have noCount : "const-string" ≠ ".registers" ∧ "const-string" ≠ ".locals" := by decide
  obtain ⟨i, l, isLine, number, instruction⟩ :=
    exists_line_of_readsInBody reads inBody (decoded _ reads.outside) noCount parsed inClass sound
  have isLine' : p.line? ⟨cls, s.cls.methods.size⟩ i = some l := by simp [Program.line?, isMethod, isLine]
  refine ⟨i, l, isLine', number, congrArg Instruction.text instruction, ?_⟩
  exact mem_literalSites analyzed isLine' (congrArg Instruction.operation instruction) quoted.value_eq

/-- A file with a string constant that has marks of all kinds in it, and a comment behind it. -/
def markedText : String :=
  ".class LA;\n.method static f()V\n.registers 1\n  const-string v0, \"#, \\\"->\\\\\" # key\nreturn-void\n.end method\n"

/-- The string. -/
def markedValue : Octets := Octets.ofString "#, \"->\\"

/-- The line of the string. -/
def markedLine : List Char :=
  [' ', ' '] ++ (literalLine "const-string" "v0" markedValue.quote).toList ++ ([' '] ++ '#' :: " key".toList)

theorem markedText_reaches_index :
    isRegister "v0".toList = true ∧ ∃ (c : ClassDecl) (before : List (List Char)) (s : ParseState) (o : OpenMethod),
      parse "A.smali" markedText = .ok c ∧ ReadsInBody "A.smali" markedText before markedLine s o ∧
      (ofProgram ⟨#[c]⟩ []).index.isAnalyzed ⟨0, s.cls.methods.size⟩ = true ∧
      ∃ i, .body ⟨0, s.cls.methods.size⟩ i ∈ (ofProgram ⟨#[c]⟩ []).index.literalSites markedValue := by
  have accepted : isRegister "v0".toList = true := by decide +kernel
  have space : Text.isBlank ' ' = true := by decide
  have blank : ∀ c ∈ [' ', ' '], Text.isBlank c = true := by simpa using space
  have trailing : Trailing ([' '] ++ '#' :: " key".toList) := .comment (by simpa using space) " key".toList
  obtain ⟨-, -, reaches⟩ := quote_reaches_index accepted markedValue blank trailing
  -- the file up to the line
  let before := [".class LA;".toList, ".method static f()V".toList, ".registers 1".toList]
  have text : markedText.toList = _ := String.toList_ofList
  have lines : Text.lines markedText.toList =
      before ++ markedLine :: ["return-void".toList, ".end method".toList] := by
    simp only [before]
    rw [text]
    repeat rw [String.toList_ofList]
    decide +kernel
  have ran : ((ParseState.run { cls := { path := "A.smali" } } 1 before).toOption.any fun s =>
      s.cls.methods.size = 0 && s.current.any fun o => o.decoder = {}) = true := by
    simp only [before]
    repeat rw [String.toList_ofList]
    decide +kernel
  have analyzed : ((parse "A.smali" markedText).toOption.any fun c =>
      (⟨0, 0⟩ : MethodId) ∈ analyzedMethods ⟨#[c]⟩ []) = true := by
    rw [parse, text]
    decide +kernel
  obtain ⟨s, isState, open?⟩ := (Option.any_eq_true _ _).mp ran
  obtain ⟨c, isClass, analyzed⟩ := (Option.any_eq_true _ _).mp analyzed
  obtain ⟨first, open?⟩ : s.cls.methods.size = 0 ∧ _ := by simpa only [Bool.and_eq_true, decide_eq_true_iff] using open?
  obtain ⟨o, isOpen, start⟩ := (Option.any_eq_true _ _).mp open?
  have start : o.decoder = {} := of_decide_eq_true start
  have parsed : parse "A.smali" markedText = .ok c := ok_of_toOption isClass
  have reads : ReadsInBody "A.smali" markedText before markedLine s o :=
    ⟨⟨_, lines⟩, ok_of_toOption isState, isOpen, by rw [start]; exact ⟨rfl, rfl⟩⟩
  have isAnalyzed : (ofProgram ⟨#[c]⟩ []).index.isAnalyzed ⟨0, s.cls.methods.size⟩ = true := by
    rw [first]
    exact isAnalyzed_ofProgram.mpr (of_decide_eq_true analyzed)
  obtain ⟨i, -, -, -, -, listed⟩ :=
    reaches ⟨#[c]⟩ [] "A.smali" markedText c 0 before s o parsed rfl reads isAnalyzed
  exact ⟨accepted, c, before, s, o, parsed, reads, isAnalyzed, i, listed⟩

end Index

end SmaliTrace
