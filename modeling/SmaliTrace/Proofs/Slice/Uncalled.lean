import SmaliTrace.Proofs.Slice.FuzzyCeiling

/-!
Parameters of methods that nothing calls. A search that tracks one of them up to the first line of its method keeps a
constant there. A line has one constant only, so of several parameters, and of what else the line may hold, one is
reported.
-/
namespace SmaliTrace.Slice
open SmaliTrace.Smali SmaliTrace.ClassFile
open SmaliTrace.Text (Octets)

variable {x : Context} {r : RegisterSearch} {c : Cursor} {σ τ : State} {item : Item} {items : List Item}

/-! ### What the constants of a search go back to -/

/-- What waits is proper, no two constants stand on one line, and each was recorded by one of the items. -/
structure Reported (x : Context) (items : List Item) (σ : State) : Prop where
  proper : σ.Proper x
  distinct : (σ.constants.toList.map Constant.line).Nodup
  recorded : ∀ k ∈ σ.constants, ∃ item ∈ items, ∃ k₀, Recorded x (Surfaces x item) item.level k₀ ∧ k₀.Lowered k

namespace Reported

theorem of_same (reported : Reported x items σ) (proper : τ.Proper x) (constants : τ.constants = σ.constants) :
    Reported x items τ :=
  ⟨proper, constants ▸ reported.distinct, constants ▸ reported.recorded⟩

theorem edit {offset : Int} (reported : Reported x items σ) (inside : item ∈ items)
    (edit : RecordEdit x (Surfaces x item) item.level offset σ τ) : Reported x items τ := by
  have proper := edit.proper reported.proper
  cases edit with
  | request other => exact reported.of_same proper (by cases other <;> rfl)
  | node => exact reported.of_same proper rfl
  | constant => exact reported.of_same proper rfl
  | produced => exact reported.of_same proper rfl
  | kept k recorded =>
    refine ⟨proper, distinct_keep k reported.distinct, fun k' kept => ?_⟩
    rcases of_mem_keep kept with rfl | ⟨k₁, old, lowered⟩
    · exact ⟨item, inside, k', recorded, .refl k'⟩
    · obtain ⟨item₀, inside₀, k₀, recorded₀, lowered₀⟩ := reported.recorded k₁ old
      exact ⟨item₀, inside₀, k₀, recorded₀, lowered₀.trans lowered⟩

theorem perform (faithful : x.index.Faithful) (reported : Reported x items σ) (inside : item ∈ items)
    (proper : item.Proper x) : Reported x items (exec (item.perform x) σ).2 := by
  have edits := (item.recordsAt_perform faithful proper).run σ
  generalize (exec (item.perform x) σ).2 = τ at edits ⊢
  induction edits with
  | refl => exact reported
  | tail _ edit ih => exact ih.edit inside edit

/-- Draining the worklist reports what the items record that it performs. -/
theorem drain (faithful : x.index.Faithful) {budget : Nat} (reported : Reported x (performed x budget σ) σ)
    (ran : exec (drain x budget) σ = (.ok (), τ)) : Reported x (performed x budget σ) τ := by
  refine (drain_invariant ran reported fun item inside ρ ρ' next performs before => ?_).1
  obtain ⟨π, π', takes, performs', quiet⟩ := performNext_cases performs next
  have taken := before.of_same (before.proper.take takes) takes.constants
  have after := taken.perform faithful inside (before.proper item takes.waited)
  rw [performs'] at after
  exact after.of_same (fun other waiting => after.proper other ((quiet.waits other).mp waiting)) quiet.constants

end Reported

/-- The search reports what the items record that it performed. -/
theorem reported_of_completed {index : Index} {options : Options} {p : BackwardPattern} {i : Nat}
    {result : SearchResult} (faithful : index.Faithful)
    (found : (backward index options p).searches[i]? = some result) (completed : result.outcome = .completed) :
    ∃ seed, (backwardSeeds index p)[i]? = some seed ∧
      Drained (backwardContext index options p i) (backwardItems index options p i seed)
        (backwardState index options p i seed) ∧
      Reported (backwardContext index options p i) (backwardItems index options p i seed)
        (backwardState index options p i seed) ∧
      ∀ k, k ∈ result.constants ↔ k ∈ (backwardState index options p i seed).constants := by
  obtain ⟨seed, σ, isSeed, seeded, -, drains, items, drained, constants⟩ := drained_of_completed found completed
  refine ⟨seed, isSeed, drained, ?_, constants⟩
  have proper : σ.Proper (backwardContext index options p i) := by
    have started := (State.proper_startState (backwardContext index options p i)).run (recordsAt_seedBackward p seed)
    rwa [seeded] at started
  have none : σ.constants = #[] := by
    obtain ⟨_, _, -, -, _, rfl⟩ := seedBackward_cases seeded
    rfl
  rw [items]
  exact Reported.drain faithful ⟨proper, by simp [none], by simp [none]⟩ drains

/-! ### The first line of a method that nothing calls -/

/-- The item tracks the parameter up to the first line of the method. -/
def Presents (x : Context) (item : Item) (m : MethodId) (position : Int) : Prop :=
  ∃ method register, x.program.method? m = some method ∧ method.paramIndex? register = some position ∧
    Surfaces x item ⟨m, 0⟩ register

variable {m : MethodId} {position : Int} {entry : Site}

theorem keepsWithin_of_callersAtEntry {method : Method} {rest : List Site} (alone : x.index.callSitesOf m = [])
    (first : x.index.sites ⟨m, 0⟩ = entry :: rest) (isMethod : x.program.method? m = some method)
    (parameter : method.paramIndex? c.register = some position)
    (ran : exec (callersAtEntry x r c ⟨m, 0⟩) σ = (.ok (), τ)) : τ.KeepsWithin r.fuzzy entry.id := by
  have none : x.index.sitesOf (x.index.callSitesOf m) = [] := by rw [alone]; rfl
  have found : (x.program.method? m).bind (fun method => method.paramIndex? c.register) = some position := by
    rw [isMethod, Option.bind_some, parameter]
  simp only [callersAtEntry, ne_eq, not_true_eq_false, if_false, found, callers, none, first] at ran
  obtain ⟨_, _, ended, last⟩ := exec_bind_eq_ok_iff.mp ran
  cases last
  exact keepsWithin_of_terminal ended

/-- A parameter that is tracked up to the first line leaves a constant there, at the level of its item or below. -/
theorem Presents.keepsWithin {rest : List Site} (presents : Presents x item m position) (backward : x.forward = false)
    (drained : Drained x items τ) (inside : item ∈ items) (alone : x.index.callSitesOf m = [])
    (first : x.index.sites ⟨m, 0⟩ = entry :: rest) : τ.KeepsWithin item.level entry.id := by
  obtain ⟨method, register, isMethod, parameter, surfaces⟩ := presents
  obtain ⟨ρ, ρ', performs, -, gains, -⟩ := drained.ran item inside
  obtain ⟨r, c, σ, π, level, rfl, called, later⟩ := surfaces.exists_exec backward performs
  have kept := keepsWithin_of_callersAtEntry alone first isMethod parameter called
  rw [level] at kept
  exact (kept.gain later).gain gains

/-- A constant that stands for an uncalled method tells a parameter that is tracked up to the line it stands on. -/
theorem Reported.uncalled {k : Constant} {rest : List Site} (faithful : x.index.Faithful)
    (reported : Reported x items σ) (kept : k ∈ σ.constants) (isUncalled : k.kind = .uncalledMethod)
    (first : x.index.sites ⟨m, 0⟩ = entry :: rest) (atEntry : k.line = entry.id) :
    ∃ item ∈ items, ∃ position, Presents x item m position ∧
      k.value = Octets.ofString (x.program.methodText m ++ " param " ++ toString position) := by
  obtain ⟨item, inside, k₀, recorded, same, -⟩ := reported.recorded k kept
  have kind : k.kind = k₀.kind := by rw [same]
  have value : k.value = k₀.value := by rw [same]
  have line : k.line = k₀.line := by rw [same]
  rw [kind] at isUncalled
  cases recorded with
  | @uncalled m' method register position entry' rest' node alone first' isMethod parameter top =>
    have here : ∀ {m : MethodId} {entry : Site} {rest : List Site}, x.index.sites ⟨m, 0⟩ = entry :: rest →
        entry.method = m := by
      intro m entry rest first
      obtain ⟨-, -, isMethod, -⟩ := faithful.site_of_getElem? (n := 0) (by rw [first]; rfl)
      exact isMethod
    have sameLine : entry'.id = entry.id := line.symm.trans atEntry
    have sameMethod : m' = m := by
      rw [← here first', ← here first]
      simpa [Site.id] using And.left (LineId.body.inj sameLine)
    subst sameMethod
    exact ⟨item, inside, position, ⟨method, register, isMethod, parameter, top⟩, value⟩
  | literal loads isValue isLocal => rcases isLocal with rfl | rfl <;> simp at isUncalled
  | _ => simp at isUncalled

/-- A completed backward search that tracks parameters of a method that nothing calls up to the first line of it keeps
one constant on that line, at a level no higher than those of the items that track them. If it stands for the uncalled
method, it tells one of these parameters. -/
theorem backward_reports_uncalled_parameter (program : Program) (excluded : List String) (options : Options)
    (p : BackwardPattern) (i : Nat) (result : SearchResult)
    (found : (backward (Index.ofProgram program excluded).index options p).searches[i]? = some result)
    (completed : result.outcome = .completed) :
    ∃ seed, (backwardSeeds (Index.ofProgram program excluded).index p)[i]? = some seed ∧
      ∀ (m : MethodId) (entry : Site), (Index.ofProgram program excluded).index.callSitesOf m = [] →
        ((Index.ofProgram program excluded).index.sites ⟨m, 0⟩).head? = some entry →
        ∀ item ∈ backwardItems (Index.ofProgram program excluded).index options p i seed, ∀ position,
          Presents (backwardContext (Index.ofProgram program excluded).index options p i) item m position →
          ∃ k ∈ result.constants, k.line = entry.id ∧ (∀ k' ∈ result.constants, k'.line = entry.id → k' = k) ∧
            k.fuzzy ≤ item.level ∧
            (k.kind = .uncalledMethod →
              ∃ item' ∈ backwardItems (Index.ofProgram program excluded).index options p i seed, ∃ position',
                Presents (backwardContext (Index.ofProgram program excluded).index options p i) item' m position' ∧
                k.value = Octets.ofString (program.methodText m ++ " param " ++ toString position')) := by
  have faithful := Index.faithful_ofProgram program excluded
  have isProgram := Index.program_ofProgram program excluded
  generalize (Index.ofProgram program excluded).index = index at found faithful isProgram ⊢
  subst isProgram
  obtain ⟨seed, isSeed, drained, reported, constants⟩ := reported_of_completed faithful found completed
  refine ⟨seed, isSeed, fun m entry alone isFirst item inside position presents => ?_⟩
  obtain ⟨rest, first⟩ := List.head?_eq_some_iff.mp isFirst
  obtain ⟨k, kept, atEntry, below⟩ := presents.keepsWithin rfl drained inside alone first
  refine ⟨k, (constants k).mpr kept, atEntry, fun k' kept' atEntry' => ?_, below, fun isUncalled => ?_⟩
  · exact List.inj_on_of_nodup_map reported.distinct (Array.mem_toList_iff.mpr ((constants k').mp kept'))
      (Array.mem_toList_iff.mpr kept) (atEntry'.trans atEntry.symm)
  · exact reported.uncalled faithful kept isUncalled first atEntry

/-! ### Two parameters -/

/-- A body that hands the sum of its two parameters to the sink. -/
def addParameters : Method where
  owner := "LMain;"
  name := "run"
  params := ["I", "I"]
  result := "V"
  flags := [.static]
  lines := #[
    ⟨1, "add-int", .binaryMath "v0" "p0" "p1", ""⟩,
    ⟨2, "invoke-static", .invoke ["v0"] ⟨"LSink;", "take", ["I"], "V"⟩, ""⟩,
    ⟨3, "return-void", .returnVoid, ""⟩]

def addParametersProgram : Program := Index.oneMethod addParameters

def addParametersGraph : BlockGraph.Graph where
  blocks := #[
    { lines := [0, 1, 2], label := some 0, preds := [], succs := [], returns := true, throws := false,
      jumps := false, dead := false, isTry := false, isHandler := false }]

def addParametersIndex : Index := .single addParameters addParametersGraph [1]

theorem index_addParametersProgram : (Index.ofProgram addParametersProgram []).index = addParametersIndex :=
  Index.index_oneMethod (by decide) (by cbv) (by decide) rfl

theorem backwardSeeds_addParameters :
    (backwardSeeds addParametersIndex sinkPattern)[0]? = some (LineId.body ⟨0, 0⟩ 1) := by
  have calls : (addParametersIndex.callSites.lines "take").toList = [LineId.body ⟨0, 0⟩ 1] :=
    (Index.lines_single "take").trans (by decide)
  rw [backwardSeeds_sinkPattern calls (by simpa using ⟨_, rfl, by decide⟩)]
  rfl

theorem callSitesOf_addParameters : addParametersIndex.callSitesOf ⟨0, 0⟩ = [] := by cbv

/-- The surroundings of the search from the sink of that body. -/
def addParametersContext : Context := backwardContext addParametersIndex (ceilingOf 0) sinkPattern 0

/-- The run of that search. -/
def addParametersRun : Except Fault Unit × State :=
  exec (do
    seedBackward addParametersContext sinkPattern (.body ⟨0, 0⟩ 1)
    drain addParametersContext (ceilingOf 0).maxIterations.toNat)
    (startState addParametersContext)

/-- The request for the second parameter, from the line of the sum. -/
def addParametersItem : RegisterSearch :=
  { register := "p1", block := ⟨⟨0, 0⟩, 0⟩, index := -1, origin := some 1, originRegister := "p1" }

/-- It ends with one constant, for the first parameter, though it performs the request for the second one. -/
theorem addParametersRun_eq :
    (addParametersRun.1, addParametersRun.2.constants.toList.map fun k => (k.line, k.value)) =
      (.ok (), [(.body ⟨0, 0⟩ 0, Octets.ofString "LMain;->run(II)V param 0")]) ∧
    (backwardItems addParametersIndex (ceilingOf 0) sinkPattern 0 (LineId.body ⟨0, 0⟩ 1))[1]? =
      some (Item.register addParametersItem) := by
  cbv

theorem mem_items_addParameters :
    Item.register addParametersItem ∈
      backwardItems addParametersIndex (ceilingOf 0) sinkPattern 0 (LineId.body ⟨0, 0⟩ 1) :=
  List.mem_of_getElem? addParametersRun_eq.2

theorem presents_addParameters : Presents addParametersContext (.register addParametersItem) ⟨0, 0⟩ 1 :=
  ⟨addParameters, "p1", rfl, by cbv, .climbs (q := addParametersItem) rfl⟩

theorem exists_completed_addParameters :
    ∃ result : SearchResult,
      (backward (Index.ofProgram addParametersProgram []).index (ceilingOf 0) sinkPattern).searches[0]? = some result ∧
      result.outcome = .completed ∧
      ∀ k ∈ result.constants, k.value = Octets.ofString "LMain;->run(II)V param 0" := by
  obtain ⟨ended, constants⟩ := Prod.mk.inj addParametersRun_eq.1
  obtain ⟨result, found, completed, same⟩ := exists_completed_of_ran backwardSeeds_addParameters ended
  rw [index_addParametersProgram]
  refine ⟨result, found, completed, fun k kept => ?_⟩
  have listed := List.mem_map_of_mem (f := fun k => (k.line, k.value)) (Array.mem_toList_iff.mpr ((same k).mp kept))
  have only := List.mem_singleton.mp (constants ▸ listed)
  exact congrArg Prod.snd only

/-- The second parameter is tracked up to the first line as well, but no constant tells it. -/
theorem addParameters_second_unreported :
    ∃ result : SearchResult,
      (backward (Index.ofProgram addParametersProgram []).index (ceilingOf 0) sinkPattern).searches[0]? = some result ∧
      result.outcome = .completed ∧
      (backwardSeeds (Index.ofProgram addParametersProgram []).index sinkPattern)[0]? = some (.body ⟨0, 0⟩ 1) ∧
      (Index.ofProgram addParametersProgram []).index.callSitesOf ⟨0, 0⟩ = [] ∧
      (∃ item ∈ backwardItems (Index.ofProgram addParametersProgram []).index (ceilingOf 0) sinkPattern 0 (.body ⟨0, 0⟩ 1),
        Presents (backwardContext (Index.ofProgram addParametersProgram []).index (ceilingOf 0) sinkPattern 0) item
          ⟨0, 0⟩ 1) ∧
      ¬ ∃ k ∈ result.constants, k.kind = .uncalledMethod ∧
        k.value = Octets.ofString (addParametersProgram.methodText ⟨0, 0⟩ ++ " param " ++ toString (1 : Int)) := by
  obtain ⟨result, found, completed, values⟩ := exists_completed_addParameters
  refine ⟨result, found, completed, ?_⟩
  rw [index_addParametersProgram]
  refine ⟨backwardSeeds_addParameters, callSitesOf_addParameters,
    ⟨_, mem_items_addParameters, presents_addParameters⟩, ?_⟩
  rintro ⟨k, kept, -, value⟩
  have different : decide (Octets.ofString "LMain;->run(II)V param 0" =
      Octets.ofString (addParametersProgram.methodText ⟨0, 0⟩ ++ " param " ++ toString (1 : Int))) = false := by cbv
  exact of_decide_eq_false different ((values k kept).symm.trans value)

/-- The one constant on the first line tells one of the two. -/
theorem addParameters_reported :
    ∃ result : SearchResult,
      (backward (Index.ofProgram addParametersProgram []).index (ceilingOf 0) sinkPattern).searches[0]? = some result ∧
      result.outcome = .completed ∧
      (Index.ofProgram addParametersProgram []).index.callSitesOf ⟨0, 0⟩ = [] ∧
      Presents (backwardContext (Index.ofProgram addParametersProgram []).index (ceilingOf 0) sinkPattern 0)
        (.register addParametersItem) ⟨0, 0⟩ 1 ∧
      ∃ k ∈ result.constants, k.line = .body ⟨0, 0⟩ 0 ∧ ∀ k' ∈ result.constants, k'.line = .body ⟨0, 0⟩ 0 → k' = k := by
  obtain ⟨result, found, completed, -⟩ := exists_completed_addParameters
  obtain ⟨seed, isSeed, reports⟩ :=
    backward_reports_uncalled_parameter addParametersProgram [] (ceilingOf 0) sinkPattern 0 result found completed
  refine ⟨result, found, completed, ?_⟩
  rw [index_addParametersProgram] at isSeed reports ⊢
  cases backwardSeeds_addParameters.symm.trans isSeed
  have alone := callSitesOf_addParameters
  have first : ((addParametersIndex.sites ⟨⟨0, 0⟩, 0⟩).head?).map Site.id = some (LineId.body ⟨0, 0⟩ 0) := by
    rw [Index.sites_of_prepared rfl rfl]
    rfl
  obtain ⟨entry, isFirst, isLine⟩ := Option.map_eq_some_iff.mp first
  obtain ⟨k, kept, atEntry, single, -⟩ :=
    reports ⟨0, 0⟩ entry alone isFirst _ mem_items_addParameters 1 presents_addParameters
  rw [isLine] at atEntry single
  exact ⟨alone, presents_addParameters, k, kept, atEntry, single⟩

end SmaliTrace.Slice
