import SmaliTrace.Proofs.Analysis.Trace
import SmaliTrace.Proofs.Slice.Literals

/-!
What findings report. A finding is a constant of a literal kind that its rule matches, so that it reports a literal of
the program, or the key of a field that is declared elsewhere.
-/
namespace SmaliTrace.Analysis
open SmaliTrace.Slice SmaliTrace.Smali SmaliTrace.ClassFile
open SmaliTrace.Text (Octets)

/-- A constant of a literal kind is the normal form of a literal that is written in the program, unless it is the key
of a field that the program neither declares nor stores to, whatever the configuration excludes and bounds; and the
findings of an analysis are such constants. -/
theorem written_unless_foreign (config : Config) :
    (∀ (program : Program) (pattern : Pattern) (i : Nat) (r : SearchResult),
      (pattern.slice (Index.ofProgram program config.excluded).index config.options).searches[i]? = some r →
        ∀ k ∈ r.constants, k.kind.isLiteral = true → (Written program k ↔ ¬ Foreign program config.excluded k)) ∧
    ∀ (α : Type) (t : FileTree α) (text : α → String) (paths : List String) (canceled listing : Bool)
      (result : Result),
      (run t text paths config canceled listing).outcome.1 = .ok result →
        ∀ f ∈ result.findings, f.constant.kind.isLiteral = true ∧
          (Written result.program f.constant ↔ ¬ Foreign result.program config.excluded f.constant) := by
  constructor
  · intro program pattern i r found k kept isLiteral
    exact pattern.written_iff found kept isLiteral
  · intro α t text paths canceled listing result ran f found
    obtain ⟨program, checked, rfl, rfl⟩ := yields_run t text paths config canceled listing [] result ran
    have isProgram : (conclusion program checked).program = program := Index.program_ofProgram ..
    obtain ⟨rule, isRule, ofRule⟩ := List.mem_flatMap.mp found
    rcases List.mem_append.mp isRule with backward | forward
    · obtain ⟨rule', _, rfl⟩ := List.mem_map.mp backward
      obtain ⟨r, inside, kept, isLiteral, -⟩ := exists_finding_iff.mp ⟨f, ofRule, rfl⟩
      obtain ⟨i, isSearch⟩ := List.mem_iff_getElem?.mp inside
      rw [isProgram]
      exact ⟨isLiteral, (Pattern.backward rule'.rule.pattern).written_iff isSearch kept isLiteral⟩
    · obtain ⟨rule', _, rfl⟩ := List.mem_map.mp forward
      simp at ofRule

/-! ### A field that is declared elsewhere -/

/-- A body that hands a field of a library class to the sink. -/
def readForeign : Method where
  owner := "LMain;"
  name := "run"
  params := []
  result := "V"
  flags := [.static]
  lines := #[
    ⟨1, "sget", .staticGet "v0" ⟨"LExt;", "KEY", "I"⟩, "sget v0, LExt;->KEY:I"⟩,
    ⟨2, "invoke-static", .invoke ["v0"] ⟨"LSink;", "take", ["I"], "V"⟩, "invoke-static {v0}, LSink;->take(I)V"⟩,
    ⟨3, "return-void", .returnVoid, "return-void"⟩]

def readForeignProgram : Program := Index.oneMethod readForeign

def readForeignGraph : BlockGraph.Graph where
  blocks := #[
    { lines := [0, 1, 2], label := some 0, preds := [], succs := [], returns := true, throws := false,
      jumps := false, dead := false, isTry := false, isHandler := false }]

/-- The index of the program, which files the field as well. -/
def readForeignIndex : Index where
  program := readForeignProgram
  prepared := Std.HashMap.insert {} ⟨0, 0⟩ (.built readForeignGraph)
  summaries := #[
    { method := ⟨0, 0⟩, invokes := #[.body ⟨0, 0⟩ 1], gets := LineTable.file {} "LExt;->KEY" (.body ⟨0, 0⟩ 0) }]
  callSites := LineTable.file {} "take" (.body ⟨0, 0⟩ 1)
  gets := LineTable.file {} "LExt;->KEY" (.body ⟨0, 0⟩ 0)

theorem index_readForeignProgram : (Index.ofProgram readForeignProgram []).index = readForeignIndex := by
  have only : Index.candidates readForeignProgram [] = [⟨0, 0⟩] := rfl
  have built : BlockGraph.ofMethod readForeign = .ok readForeignGraph := by cbv
  have key : readForeignProgram.fieldKey ⟨"LExt;", "KEY", "I"⟩ = "LExt;->KEY" := by cbv
  have summary : Summary.ofGraph readForeignProgram ⟨0, 0⟩ readForeignGraph =
      { method := ⟨0, 0⟩, invokes := #[.body ⟨0, 0⟩ 1],
        gets := LineTable.file {} (readForeignProgram.fieldKey ⟨"LExt;", "KEY", "I"⟩) (.body ⟨0, 0⟩ 0) } := rfl
  rw [Index.index_ofProgram_of_candidates only rfl (by decide) built (by decide), summary, key]
  simp only [Index.add, Index.merge_empty, Index.merge_file]
  rfl

/-- The run of the search from the sink of that body. -/
def readForeignRun : Except Fault Unit × State :=
  exec (do
    seedBackward (backwardContext readForeignIndex (ceilingOf 0) sinkPattern 0) sinkPattern (.body ⟨0, 0⟩ 1)
    drain (backwardContext readForeignIndex (ceilingOf 0) sinkPattern 0) (ceilingOf 0).maxIterations.toNat)
    (startState (backwardContext readForeignIndex (ceilingOf 0) sinkPattern 0))

/-- The key of the field is recorded under a literal kind, with the text of the line that reads it. -/
theorem readForeignRun_eq :
    (readForeignRun.1, readForeignRun.2.constants.toList.map fun k => (k.kind, k.value, k.raw)) =
      (.ok (), [(.fieldConstant, Octets.ofString "LExt;->KEY", "sget v0, LExt;->KEY:I")]) := by cbv

/-- The one constant that the search keeps. -/
theorem exists_completed_readForeign :
    ∃ result : SearchResult,
      (backward (Index.ofProgram readForeignProgram []).index (ceilingOf 0) sinkPattern).searches[0]? = some result ∧
      ∃ k ∈ result.constants, k.kind = .fieldConstant ∧ k.value = Octets.ofString "LExt;->KEY" ∧
        k.raw = "sget v0, LExt;->KEY:I" := by
  obtain ⟨ended, constants⟩ := Prod.mk.inj readForeignRun_eq
  have calls : (readForeignIndex.callSites.lines "take").toList = [LineId.body ⟨0, 0⟩ 1] := by
    simp [readForeignIndex, LineTable.file, LineTable.lines]
  have isSeed : (backwardSeeds readForeignIndex sinkPattern)[0]? = some (LineId.body ⟨0, 0⟩ 1) := by
    rw [backwardSeeds_sinkPattern calls (by simpa using ⟨_, rfl, by decide⟩)]
    rfl
  obtain ⟨result, found, -, same⟩ := exists_completed_of_ran isSeed ended
  rw [index_readForeignProgram]
  refine ⟨result, found, ?_⟩
  obtain ⟨k, only, isConstant⟩ := List.map_eq_singleton_iff.mp constants
  have kept : k ∈ readForeignRun.2.constants := Array.mem_toList_iff.mp (by rw [only]; exact List.mem_singleton_self k)
  simp only [Prod.mk.injEq] at isConstant
  exact ⟨k, (same k).mpr kept, isConstant⟩

/-- A rule that matches every value that is not empty. -/
def anyValue : Config.CheckedRule := ⟨{ name := "any", owner := "LSink;", method := "take" }, [.any false]⟩

/-- The text of the line that reads the field is no literal. -/
theorem value_readForeign : (Literal.value "sget v0, LExt;->KEY:I").toOption = none := rfl

theorem value_ne_readForeign (value : Octets) : Literal.value "sget v0, LExt;->KEY:I" ≠ .ok value := by
  intro isValue
  have none := value_readForeign
  rw [isValue] at none
  cases none

/-- The key of the field is recorded under a literal kind and reported, though no literal of the program has it. -/
theorem readForeign_reported :
    ∃ result : SearchResult, ∃ k ∈ result.constants,
      (backward (Index.ofProgram readForeignProgram []).index (ceilingOf 0) sinkPattern).searches[0]? = some result ∧
      k.kind.isLiteral = true ∧ k.kind ≠ .array ∧ Literal.value k.raw ≠ .ok k.value ∧
      ∃ f ∈ findings readForeignProgram anyValue
        (backward (Index.ofProgram readForeignProgram []).index (ceilingOf 0) anyValue.rule.pattern),
        f.constant = k := by
  obtain ⟨result, found, k, kept, isConstant, isKey, isText⟩ := exists_completed_readForeign
  have isLiteral : k.kind.isLiteral = true := by rw [isConstant]; rfl
  refine ⟨result, k, kept, found, isLiteral, by simp [isConstant], ?_, ?_⟩
  · rw [isText]
    exact value_ne_readForeign k.value
  have matched : anyValue.isInsecure k.value = true := by
    rw [isKey]
    cbv
  exact exists_finding_iff.mpr ⟨result, List.mem_of_getElem? found, kept, isLiteral, matched⟩

/-- It stands for a field that is declared elsewhere. -/
theorem readForeign_foreign :
    ∃ result : SearchResult, ∃ k ∈ result.constants,
      ((Pattern.backward sinkPattern).slice (Index.ofProgram readForeignProgram []).index (ceilingOf 0)).searches[0]? =
        some result ∧
      k.kind.isLiteral = true ∧ Foreign readForeignProgram [] k := by
  obtain ⟨result, found, k, kept, isConstant, -, isText⟩ := exists_completed_readForeign
  have isLiteral : k.kind.isLiteral = true := by rw [isConstant]; rfl
  refine ⟨result, k, kept, found, isLiteral, ?_⟩
  have written_iff := (written_unless_foreign ⟨[], ceilingOf 0, [anyValue.rule], []⟩).1 readForeignProgram
    (.backward sinkPattern) 0 result found k kept isLiteral
  by_contra declared
  cases written_iff.mpr declared with
  | load isLocal => rcases isLocal with isLocal | isLocal <;> cases isConstant.symm.trans isLocal
  | operand isMath => cases isConstant.symm.trans isMath
  | payload isArray => cases isConstant.symm.trans isArray
  | initial _ _ _ _ isValue => exact value_ne_readForeign k.value (isText ▸ isValue)

end SmaliTrace.Analysis
