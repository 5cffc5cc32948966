import SmaliTrace.Proofs.Index.StringLoads
import SmaliTrace.Proofs.Smali.Integer

/-!
Integer constants from their spelling to the index. All spellings of a number have the same value and are found under
it, except for those that are taken for floating-point numbers: these have no value, and are found under none.
-/
namespace SmaliTrace.Index
open SmaliTrace.ClassFile SmaliTrace.Smali
open SmaliTrace.Number (IsWord)
open SmaliTrace.Smali.Literal (Denotes TakenForFloat)
open SmaliTrace.Text (Octets)

variable {p : Program} {excluded : List String} {id : MethodId} {i : Nat} {l : CodeLine} {r : Register} {raw : String}
  {v : Int}

/-- The index lists a load under the value of its literal only. -/
theorem value_of_mem_literalSites {key : Octets} (isLine : p.line? id i = some l)
    (loads : l.operation = .constLiteral r raw)
    (listed : .body id i ∈ (ofProgram p excluded).index.literalSites key) : Literal.value raw = .ok key := by
  rw [index_ofProgram, literalSites_finishedIn (.refl _), scan, List.mem_filter] at listed
  have isLoad := listed.2
  rw [Program.operation?, isLine, Option.map_some, Option.any_some, isLoadOf_iff, loads] at isLoad
  exact ok_of_toOption isLoad

/-- What has been read is shown in decimal, unless the literal is taken for a floating-point number. -/
theorem value_of_readInteger (read : Literal.readInteger raw.toList = .ok v) : Literal.value raw =
    if TakenForFloat raw.toList then fail raw.toList .notAFloat else .ok (Octets.ofString (toString v)) := by
  obtain ⟨n, denotes⟩ := Literal.exists_denotes_of_readInteger read
  rw [denotes.value_eq, read]
  rfl

/-- An integer literal and its normal form. A literal that is read as a number, as every spelling of a word is, is zero
exactly if the number is, and its value is the number in decimal unless it is taken for a floating-point number, and
refused. So the loads of a number are found under one key, but for the spellings that are refused, which are found under
none. -/
theorem integer_normalized
    (spelled : Literal.readInteger raw.toList = .ok v ∨ IsWord v ∧ Denotes raw.toList v) :
    Literal.readInteger raw.toList = .ok v ∧
    (Literal.isZero raw = true ↔ v = 0) ∧
    Literal.value raw =
      (if TakenForFloat raw.toList then fail raw.toList .notAFloat else .ok (Octets.ofString (toString v))) ∧
    ∀ (p : Program) (excluded : List String) (id : MethodId) (i : Nat) (l : CodeLine) (r : Register),
      (ofProgram p excluded).index.isAnalyzed id = true → p.line? id i = some l →
      l.operation = .constLiteral r raw →
      ∀ key, .body id i ∈ (ofProgram p excluded).index.literalSites key ↔
        ¬ TakenForFloat raw.toList ∧ key = Octets.ofString (toString v) := by
  have read : Literal.readInteger raw.toList = .ok v :=
    spelled.elim id fun word => Literal.readInteger_of_isWord word.1 word.2
  have value := value_of_readInteger read
  refine ⟨read, ?_, value, ?_⟩
  · rw [Literal.isZero, read, decide_eq_true_iff]
    exact ⟨fun zero => Option.some.inj zero, fun zero => congrArg some zero⟩
  · intro p excluded id i l r analyzed isLine loads key
    constructor
    · intro listed
      rw [value_of_mem_literalSites isLine loads listed] at value
      split at value
      · cases value
      · next notTaken => exact ⟨notTaken, Except.ok.inj value⟩
    · rintro ⟨notTaken, rfl⟩
      rw [if_neg notTaken] at value
      exact mem_literalSites analyzed isLine loads value

/-- A file that loads a number in two spellings, of which one has a capital mark, but no letter that could end a
floating-point number. -/
def twoSpellings : String :=
  ".class LA;\n.method static f()V\n.registers 1\nconst/16 v0, 0X1C\nconst/16 v0, +28s\nreturn-void\n.end method\n"

theorem twoSpellings_normalized : ∃ c : ClassDecl, parse "A.smali" twoSpellings = .ok c ∧
    Literal.readInteger "0X1C".toList = .ok 28 ∧ Literal.value "0X1C" = .ok (Octets.ofString (toString (28 : Int))) ∧
    Literal.isZero "0X1C" = false ∧ Denotes "+28s".toList 28 ∧ Literal.readInteger "+28s".toList = .ok 28 ∧
    .body ⟨0, 0⟩ 1 ∈ (ofProgram ⟨#[c]⟩ []).index.literalSites (Octets.ofString (toString (28 : Int))) ∧
    .body ⟨0, 0⟩ 2 ∈ (ofProgram ⟨#[c]⟩ []).index.literalSites (Octets.ofString (toString (28 : Int))) := by
  have hexadecimal : Literal.readInteger "0X1C".toList = .ok 28 := by decide +kernel
  obtain ⟨-, zero, value, listed⟩ := integer_normalized (.inl hexadecimal)
  have denotes : Denotes "+28s".toList 28 := by
    have value : Text.digitsValue? Number.decimalValue? 10 ['2', '8'] = some 28 := by decide
    exact .mk .plus (.decimal (by simp) value) (by simp [Literal.isSize] : ∀ c ∈ ['s'], Literal.isSize c = true)
  have isWord : IsWord 28 := by decide
  obtain ⟨decimal, -, -, listed'⟩ := integer_normalized (.inr ⟨isWord, denotes⟩)
  have known : ((parse "A.smali" twoSpellings).toOption.any fun c =>
      (⟨0, 0⟩ : MethodId) ∈ analyzedMethods ⟨#[c]⟩ [] &&
        ((⟨#[c]⟩ : Program).line? ⟨0, 0⟩ 1).any (fun l => l.operation = .constLiteral "v0" "0X1C") &&
        ((⟨#[c]⟩ : Program).line? ⟨0, 0⟩ 2).any fun l => l.operation = .constLiteral "v0" "+28s") = true := by
    have text : twoSpellings.toList = _ := String.toList_ofList
    rw [parse, text]
    decide +kernel
  obtain ⟨c, isClass, known⟩ := (Option.any_eq_true _ _).mp known
  simp only [Bool.and_eq_true, decide_eq_true_iff] at known
  obtain ⟨⟨inside, isFirst⟩, isSecond⟩ := known
  obtain ⟨first, isLine, loads⟩ := (Option.any_eq_true _ _).mp isFirst
  obtain ⟨second, isLine', loads'⟩ := (Option.any_eq_true _ _).mp isSecond
  have analyzed : (ofProgram ⟨#[c]⟩ []).index.isAnalyzed ⟨0, 0⟩ = true := isAnalyzed_ofProgram.mpr inside
  refine ⟨c, ok_of_toOption isClass, hexadecimal, value.trans (if_neg (by decide +kernel)), ?_, denotes, decimal, ?_, ?_⟩
  · exact Bool.eq_false_iff.mpr fun isZero => absurd (zero.mp isZero) (by decide)
  · exact (listed _ _ _ _ _ _ analyzed isLine (of_decide_eq_true loads) _).mpr ⟨by decide +kernel, rfl⟩
  · exact (listed' _ _ _ _ _ _ analyzed isLine' (of_decide_eq_true loads') _).mpr ⟨by decide +kernel, rfl⟩

/-- A number behind a capital mark that is read, but has no value. -/
theorem capital_not_normalized : Denotes "0XFF".toList 255 ∧ Literal.readInteger "0XFF".toList = .ok 255 ∧
    Literal.value "0XFF" = fail "0XFF".toList .notAFloat ∧ Literal.value "0xFF" = .ok (Octets.ofString "255") := by
  refine ⟨?_, by decide +kernel, by decide +kernel, by decide +kernel⟩
  have value : Text.digitsValue? Text.hexValue? 16 ['F', 'F'] = some 255 := by decide
  exact .mk .unsigned (.hex (.inr rfl) (by simp) value) (by simp : ∀ c ∈ [], Literal.isSize c = true)

end SmaliTrace.Index
