import SmaliTrace.Proofs.Index.Exclusion
import SmaliTrace.Proofs.Slice.Ceiling
import SmaliTrace.Proofs.Slice.RetraceRun

/-!
Slices with excluded classes. Where no kept line comes upon an excluded class, a pattern finds what it finds once
the classes are gone. A native method is one way to come upon one: it is known for native with its class excluded,
and for a library method without the class.
-/
namespace SmaliTrace.Slice
open SmaliTrace.Smali SmaliTrace.ClassFile
open Index (kept place Secluded)

/-- Excluding classes that nothing comes upon gives the slices of the program without them: the same seeds, graphs,
constants, outcomes, counters and log, where each line stands for the line of the same text. -/
theorem Pattern.slice_of_secluded {p : Program} {excluded : List String} (wf : p.WellFormed)
    (secluded : Secluded p excluded) (options : Options) {pattern : Pattern} (searched : pattern.start? = none) :
    (∀ l, p.label (l.rename (place p excluded)) = (kept p excluded).label l) ∧
      pattern.seedLines (Index.ofProgram p excluded).index =
        (pattern.seedLines (Index.ofProgram (kept p excluded) []).index).map (LineId.rename (place p excluded)) ∧
      pattern.slice (Index.ofProgram p excluded).index options =
        (pattern.slice (Index.ofProgram (kept p excluded) []).index options).rename (place p excluded) := by
  have embeds := Index.embeds_kept wf secluded
  exact ⟨Program.label_position, pattern.seedLines_onto embeds searched, pattern.slice_onto embeds options searched⟩

/-! ### A library method with a body, and a native one -/

/-- A body that hands what a library method gives on to the sink. -/
def passKey : Method where
  owner := "LMain;"
  name := "run"
  params := []
  result := "V"
  flags := [.static]
  lines := #[
    ⟨1, "invoke-static", .invoke [] ⟨"Llib/Ext;", "key", [], "I"⟩, ""⟩,
    ⟨2, "move-result", .moveResult "v0", ""⟩,
    ⟨3, "invoke-static", .invoke ["v0"] ⟨"LSink;", "take", ["I"], "V"⟩, ""⟩,
    ⟨4, "return-void", .returnVoid, ""⟩]

def mainClass : ClassDecl := { path := "Main.smali", name := "LMain;", methods := #[passKey] }

/-- The class of that body and the class of the library method. -/
def passKeyProgram (key : Method) : Program :=
  ⟨#[mainClass, { path := "Ext.smali", name := "Llib/Ext;", methods := #[key] }]⟩

theorem kept_passKeyProgram (key : Method) : kept (passKeyProgram key) ["Llib/"] = ⟨#[mainClass]⟩ := by
  have isKept : Index.keeps ["Llib/"] "LMain;" = true := by decide
  have isDropped : Index.keeps ["Llib/"] "Llib/Ext;" = false := by decide
  simp [Program.restrict, passKeyProgram, mainClass, isKept, isDropped]

theorem eq_of_method?_passKeyProgram {key m : Method} {id : MethodId}
    (isMethod : (passKeyProgram key).method? id = some m) : m = key ∨ m = passKey := by
  obtain ⟨c, isClass, declared⟩ := Option.bind_eq_some_iff.mp isMethod
  have inside := Array.mem_of_getElem? isClass
  simp only [passKeyProgram, mainClass, List.mem_toArray, List.mem_cons, List.not_mem_nil, or_false] at inside
  rcases inside with rfl | rfl
  · exact .inr (by simpa using Array.mem_of_getElem? declared)
  · exact .inl (by simpa using Array.mem_of_getElem? declared)

/-- The library method, with a body. -/
def writtenKey : Method where
  owner := "Llib/Ext;"
  name := "key"
  params := []
  result := "I"
  flags := [.static]
  lines := #[⟨1, "const/4", .constLiteral "v0" "0x7", ""⟩, ⟨2, "return", .returnValue "v0", ""⟩]

/-- The library method, without one. -/
def nativeKey : Method := { writtenKey with flags := [.static, .native], lines := #[] }

theorem wellFormed_passKeyProgram {key : Method} (declared : key.owner = "Llib/Ext;") :
    (passKeyProgram key).WellFormed where
  classes := by
    intro c inside
    simp only [passKeyProgram, mainClass, List.mem_toArray, List.mem_cons, List.not_mem_nil, or_false] at inside
    rcases inside with rfl | rfl
    · exact ⟨by simp, by simp; rfl⟩
    · exact ⟨by simp, by simpa using declared⟩
  distinct := by simp [Program.classNames, passKeyProgram, mainClass]

theorem secluded_writtenKey : Secluded (passKeyProgram writtenKey) ["Llib/"] where
  detached := by decide
  calls line inside ref calls id m isTarget isMethod dropped := by
    rcases eq_of_method?_passKeyProgram isMethod with rfl | rfl <;> decide
  fields line inside ref accesses := by
    rw [kept_passKeyProgram] at inside
    have noField : ∀ line ∈ Program.codeLines ⟨#[mainClass]⟩, line.operation.field? = none := by decide
    simp [noField line inside] at accesses
  overrides id m isMethod overridable := by
    rw [← Program.method?_position] at isMethod
    rcases eq_of_method?_passKeyProgram isMethod with rfl | rfl <;> exact absurd overridable (by decide)

/-- Nothing of the class with the method that has a body is seen. -/
theorem writtenKey_unseen :
    (passKeyProgram writtenKey).WellFormed ∧ Secluded (passKeyProgram writtenKey) ["Llib/"] ∧
      (Pattern.backward sinkPattern).start? = none ∧
      (Pattern.backward sinkPattern).slice (Index.ofProgram (passKeyProgram writtenKey) ["Llib/"]).index
          (ceilingOf 0) =
        ((Pattern.backward sinkPattern).slice (Index.ofProgram ⟨#[mainClass]⟩ []).index (ceilingOf 0)).rename
          (place (passKeyProgram writtenKey) ["Llib/"]) := by
  have wf : (passKeyProgram writtenKey).WellFormed := wellFormed_passKeyProgram rfl
  have searched : (Pattern.backward sinkPattern).start? = none := rfl
  have same := (Pattern.slice_of_secluded wf secluded_writtenKey (ceilingOf 0) searched).2.2
  rw [kept_passKeyProgram] at same
  exact ⟨wf, secluded_writtenKey, searched, same⟩

/-! ### The native method is told apart -/

def passKeyGraph : BlockGraph.Graph where
  blocks := #[
    { lines := [0, 1, 2, 3], label := some 0, preds := [], succs := [], returns := true, throws := false,
      jumps := false, dead := false, isTry := false, isHandler := false }]

/-- The index of a program in which that body is all that is looked at. -/
def passKeyIndex (p : Program) : Index where
  program := p
  prepared := Std.HashMap.insert {} ⟨0, 0⟩ (.built passKeyGraph)
  summaries := #[{ method := ⟨0, 0⟩, invokes := #[.body ⟨0, 0⟩ 0, .body ⟨0, 0⟩ 2] }]
  callSites := LineTable.file (LineTable.file {} "key" (.body ⟨0, 0⟩ 0)) "take" (.body ⟨0, 0⟩ 2)

theorem index_of_candidates_passKey {others : List ClassDecl} {excluded : List String}
    (only : Index.candidates ⟨⟨mainClass :: others⟩⟩ excluded = [⟨0, 0⟩]) :
    (Index.ofProgram ⟨⟨mainClass :: others⟩⟩ excluded).index = passKeyIndex ⟨⟨mainClass :: others⟩⟩ := by
  have built : BlockGraph.ofMethod passKey = .ok passKeyGraph := by cbv
  have summary : Summary.ofGraph ⟨⟨mainClass :: others⟩⟩ ⟨0, 0⟩ passKeyGraph =
      { method := ⟨0, 0⟩, invokes := #[.body ⟨0, 0⟩ 0, .body ⟨0, 0⟩ 2] } := by cbv
  have isMethod : Program.method? ⟨⟨mainClass :: others⟩⟩ ⟨0, 0⟩ = some passKey := by cbv
  rw [Index.index_ofProgram_of_candidates only isMethod (by decide) built (by decide), summary]
  simp only [Index.add, Index.merge_empty]
  rfl

/-- The kinds of the constants that each search found. -/
def Criterion.kinds (c : Criterion) : List (List ConstantKind) :=
  c.searches.map fun r => r.constants.map Constant.kind

theorem Criterion.kinds_rename (f : Nat → Nat) (c : Criterion) : (c.rename f).kinds = c.kinds := by
  simp [kinds, rename, SearchResult.rename, Constant.rename, Function.comp_def]

/-- With its class excluded the native method is known for native; without the class it is a library method. No
renaming of the positions makes up for that. -/
theorem nativeKey_seen :
    (passKeyProgram nativeKey).WellFormed ∧ (Pattern.backward sinkPattern).start? = none ∧
      ∀ f : Nat → Nat,
        (Pattern.backward sinkPattern).slice (Index.ofProgram (passKeyProgram nativeKey) ["Llib/"]).index
            (ceilingOf 0) ≠
          ((Pattern.backward sinkPattern).slice
            (Index.ofProgram (kept (passKeyProgram nativeKey) ["Llib/"]) []).index (ceilingOf 0)).rename f := by
  refine ⟨wellFormed_passKeyProgram rfl, rfl, fun f same => ?_⟩
  have wholeIndex : (Index.ofProgram (passKeyProgram nativeKey) ["Llib/"]).index =
      passKeyIndex (passKeyProgram nativeKey) := index_of_candidates_passKey (by decide)
  have partIndex : (Index.ofProgram ⟨#[mainClass]⟩ []).index = passKeyIndex ⟨#[mainClass]⟩ :=
    index_of_candidates_passKey (by decide)
  have whole : ((Pattern.backward sinkPattern).slice (passKeyIndex (passKeyProgram nativeKey)) (ceilingOf 0)).kinds =
      [[.nativeMethod]] := by cbv
  have part : ((Pattern.backward sinkPattern).slice (passKeyIndex ⟨#[mainClass]⟩) (ceilingOf 0)).kinds =
      [[.externalMethod]] := by cbv
  have kinds := congrArg Criterion.kinds same
  rw [Criterion.kinds_rename, kept_passKeyProgram, wholeIndex, partIndex, whole, part] at kinds
  simp at kinds

end SmaliTrace.Slice
