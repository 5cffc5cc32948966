import SmaliTrace.Proofs.Slice.Exception
import SmaliTrace.Proofs.Slice.Logical

/-!
Backward searches from calls end with no logic error in an orderly program, as far as the index does not mix up ways
and overloads.
-/
namespace SmaliTrace.Slice
open SmaliTrace.Smali SmaliTrace.ClassFile

variable {x : Context} {σ τ ρ : State} {item : Item}

theorem Took.cleared (took : Took item σ ρ) (cleared : Cleared x σ) : Cleared x ρ := by
  intro r waits
  have waiting : Item.register r ∈ σ.work.waiting := by
    rw [took.waiting]
    exact List.mem_cons_of_mem _ (by simp [Worklist.waiting, waits])
  exact cleared r (by simpa [Worklist.waiting] using waiting)

theorem Took.clear {r : RegisterSearch} (took : Took (.register r) σ ρ) (cleared : Cleared x σ) :
    Clear x r.block r.index := by
  have waiting : Item.register r ∈ σ.work.waiting := by
    rw [took.waiting]
    exact List.mem_cons_self
  exact cleared r (by simpa [Worklist.waiting] using waiting)

section Reliable

variable (reliable : Reliable x) (backward : x.forward = false)
include reliable backward

/-- An item that was waiting is performed without a surprise. -/
theorem logical_perform (took : Took item σ ρ) (cleared : Cleared x σ) : Logical x (item.perform x) := by
  cases item with
  | register r =>
    simp only [Item.perform, searchRegister, backward, Bool.false_eq_true, if_false]
    exact logical_backwardRegister reliable (took.clear cleared)
  | content kind search =>
    simp only [Item.perform, searchContent, backward]
    cases kind with
    | field => exact logical_backwardField reliable search
    | array => exact logical_backwardArrayField reliable search
    | result => exact logical_backwardResult reliable search

/-- A turn sends searches only to where they may walk up. -/
theorem cleared_performNext (taken : σ.take? = some (item, ρ)) (cleared : Cleared x σ) :
    Cleared x (exec (performNext x) σ).2 := by
  refine performNext_preserves ?_ (fun _ cleared => cleared) taken cleared
  intro item σ ρ taken cleared
  have took := took_of_take? taken
  exact (logical_perform reliable backward took cleared).cleared ρ (took.cleared cleared)

/-- A turn meets nothing surprising. -/
theorem performNext_ne_logic (taken : σ.take? = some (item, ρ)) (cleared : Cleared x σ) (e : LogicError) :
    (exec (performNext x) σ).1 ≠ .error (.logic e) := by
  have sound := (logical_perform reliable backward (took_of_take? taken) cleared).sound ρ e
  rw [exec_performNext_of_take? taken]
  rcases ran : exec (item.perform x) ρ with ⟨fault | ⟨⟩, τ⟩ <;> rw [ran] at sound
  · exact sound
  · cases item with
    | content kind search => simp [Item.settle]
    | register r =>
      dsimp only [Item.settle]
      split
      · simp
      · simp

/-- Draining meets nothing surprising, however long it takes. -/
theorem drain_ne_logic (budget : Nat) (cleared : Cleared x σ) (e : LogicError) :
    (exec (drain x budget) σ).1 ≠ .error (.logic e) := by
  induction budget generalizing σ with
  | zero =>
    cases busy : σ.work.isFinished with
    | true => simp [exec_drain_of_finished 0 busy]
    | false => simp [exec_drain_zero busy]
  | succ budget ih =>
    rcases take?_cases σ with ⟨-, nothing⟩ | ⟨item, ρ, taken, took⟩
    · simp [exec_drain_of_finished _ (Worklist.isFinished_iff.mpr nothing)]
    · have later := cleared_performNext reliable backward taken cleared
      have sound := performNext_ne_logic reliable backward taken cleared e
      rw [exec_drain_succ budget took.not_isFinished]
      rcases ran : exec (performNext x) σ with ⟨fault | ⟨⟩, τ⟩ <;> rw [ran] at later sound
      · exact sound
      · exact ih later

omit backward in
/-- The seed of a search at a call with the argument asked for. -/
theorem logical_seedBackward {p : BackwardPattern} {line : LineId} {s : Site} (isSite : x.index.site? line = some s)
    {registers : List Register} {ref : MethodRef} (calls : s.operation = .invoke registers ref) {register : Register}
    (passes : s.instruction.argument p.param = .ok register) : Logical x (seedBackward x p line) := by
  simp only [seedBackward, isSite, seedRegister_of_argument calls passes]
  refine (Logical.pure _).andThen fun _ => (logical_addNode ..).andThen fun _ => logical_admitRegister ?_
  exact reliable.clear_above (reliable.faithful.mem_allSites_of_site? isSite) (by rw [calls]; rfl)

theorem run_ne_logic {seed : SearchM Unit} (logical : Logical x seed) (budget : Nat) (e : LogicError) :
    (exec (do seed; drain x budget) (startState x)).1 ≠ .error (.logic e) := by
  have cleared := logical.cleared (startState x) (by simp [Cleared, startState])
  have sound := logical.sound (startState x) e
  rw [exec_bind]
  rcases ran : exec seed (startState x) with ⟨fault | ⟨⟩, τ⟩ <;> rw [ran] at cleared sound
  · exact sound
  · exact drain_ne_logic reliable backward budget cleared e

end Reliable

/-! ### Whole searches -/

/-- The line is a call that has the argument which the pattern asks for. -/
def Asks (program : Program) (p : BackwardPattern) (line : LineId) : Prop :=
  ∃ m i l registers ref, line = .body m i ∧ program.line? m i = some l ∧ l.operation = .invoke registers ref ∧
    IsParam l.instruction.isStaticInvoke ref.params p.param

/-- The lines that a pattern finds by itself are in blocks. -/
theorem exists_site_of_mem_backwardSeeds {program : Program} {excluded : List String} {p : BackwardPattern}
    (searched : p.start = none) {line : LineId} (isSeed : line ∈ backwardSeeds (Index.ofProgram program excluded).index p) :
    ∃ s, (Index.ofProgram program excluded).index.site? line = some s := by
  refine Index.exists_site_of_mem_analyzedLines ?_
  rw [backwardSeeds, searched] at isSeed
  dsimp only at isSeed
  split at isSeed
  · obtain ⟨id, -, returned⟩ := List.mem_flatMap.mp isSeed
    rw [Index.index_ofProgram, Index.returns_finishedIn (.refl _)] at returned
    exact List.mem_of_mem_filter (List.mem_of_mem_filter returned)
  · rw [Index.index_ofProgram, Index.callSitesMatching_finishedIn (.refl _)] at isSeed
    exact List.mem_of_mem_filter isSeed

/-- A call that has the argument asked for passes it. -/
theorem Asks.exists_argument {index : Index} {p : BackwardPattern} {line : LineId} (asks : Asks index.program p line)
    (faithful : index.Faithful) (orderly : index.Orderly) {s : Site} (isSite : index.site? line = some s) :
    ∃ registers ref register, s.operation = .invoke registers ref ∧ s.instruction.argument p.param = .ok register := by
  obtain ⟨m, k, l, registers, ref, rfl, isLine, calls, isParam⟩ := asks
  obtain ⟨inside, same⟩ := Index.mem_sites_of_site? isSite
  cases same
  obtain ⟨-, m', _, stands⟩ := faithful.exists_stands inside
  obtain rfl : l = s.line := by simpa [Program.line?, stands.isMethod, stands.isLine] using isLine.symm
  obtain ⟨arguments, made⟩ := orderly.exists_arguments faithful inside (by rw [Site.operation, calls]; rfl)
  obtain ⟨register, passes⟩ := ClassFile.exists_argument calls made isParam
  exact ⟨registers, ref, register, calls, passes⟩

variable {program : Program} {excluded : List String}

/-- A backward search from a call, for an argument that the call has, ends with no logic error if the program is
orderly and its index untangled. -/
theorem backward_never_illogical (described : program.Described)
    (orderly : (Index.ofProgram program excluded).index.Orderly)
    (untangled : (Index.ofProgram program excluded).index.Untangled) (options : Options) {p : BackwardPattern}
    (started : ∀ line, p.start = some line → ∃ s, (Index.ofProgram program excluded).index.site? line = some s)
    {i : Nat} {line : LineId} (isSeed : (backwardSeeds (Index.ofProgram program excluded).index p)[i]? = some line)
    (asks : Asks program p line) {result : SearchResult}
    (found : (backward (Index.ofProgram program excluded).index options p).searches[i]? = some result) (e : LogicError) :
    result.outcome ≠ .aborted (.logic e) := by
  have faithful := Index.faithful_ofProgram program excluded
  have isProgram := Index.program_ofProgram program excluded
  have described' : (Index.ofProgram program excluded).index.program.Described := by rwa [isProgram]
  obtain ⟨s, isSite⟩ : ∃ s, (Index.ofProgram program excluded).index.site? line = some s := by
    cases start : p.start with
    | none => exact exists_site_of_mem_backwardSeeds start (List.mem_of_getElem? isSeed)
    | some first =>
      have only := List.mem_of_getElem? isSeed
      rw [backwardSeeds, start] at only
      obtain rfl := List.mem_singleton.mp only
      exact started line start
  have reliable : Reliable (backwardContext (Index.ofProgram program excluded).index options p i) :=
    reliable_of_orderly faithful described' orderly untangled
  have logical : Logical (backwardContext (Index.ofProgram program excluded).index options p i)
      (seedBackward (backwardContext (Index.ofProgram program excluded).index options p i) p line) := by
    obtain ⟨registers, ref, register, calls, passes⟩ :=
      (isProgram.symm ▸ asks : Asks _ p line).exists_argument faithful orderly isSite
    exact logical_seedBackward reliable isSite calls passes
  have ran := Pattern.getElem?_searches (Index.ofProgram program excluded).index options i (.backward p)
  rw [show (Pattern.backward p).slice _ options = backward _ options p from rfl, found, Pattern.search?, isSeed] at ran
  cases ran
  have sound := run_ne_logic reliable rfl logical options.maxIterations.toNat e
  simp only [Search.result, Search.outcome, Search.run]
  split
  · simp
  · next fault ended =>
    intro same
    cases same
    exact sound ended

/-! ### A return that is not in the way -/

/-- The body of two loads with a handler returns behind the range that the handler is for. -/
theorem oneBody_loadTwice : Index.OneBody loadTwiceIndex loadTwice loadTwiceGraph where
  method _ _ found := Program.eq_of_method? found rfl
  graph _ _ found := Index.graph?_of_insert rfl found
  uncalled := by cbv

theorem noDeadCode_loadTwice : BlockGraph.NoDeadCode loadTwice := by
  have load : BlockGraph.Reached loadTwice 1 := ⟨1, by decide, .refl⟩
  have call : BlockGraph.Reached loadTwice 2 := load.next rfl rfl (by decide) (by decide)
  have load' : BlockGraph.Reached loadTwice 3 := call.next rfl rfl (by decide) (by decide)
  have call' : BlockGraph.Reached loadTwice 4 := load'.next rfl rfl (by decide) (by decide)
  have leaves : BlockGraph.Reached loadTwice 7 := call'.next rfl rfl (by decide) (by decide)
  have directive : BlockGraph.Directive loadTwice 6 0 5 8 := ⟨_, rfl, by decide, by decide, by decide⟩
  have caught : BlockGraph.Reached loadTwice 9 := load.raise (by decide) directive (by decide) (by decide)
  have leaves' : BlockGraph.Reached loadTwice 10 := caught.next rfl rfl (by decide) (by decide)
  intro l runs
  have bound : l < 11 := BlockGraph.lt_size_of_executable runs
  interval_cases l <;> first | assumption | exact absurd runs (by decide)

theorem described_loadTwice : loadTwiceProgram.Described := Program.described_of_references (by cbv)

/-- The search from the handler meets nothing surprising. -/
theorem loadTwice_logical :
    ∃ result, (backward (Index.ofProgram loadTwiceProgram []).index fewIterations sinkPattern).searches[0]? =
      some result ∧ ∀ e, result.outcome ≠ .aborted (.logic e) := by
  obtain ⟨result, found, -, -, isSeed, -⟩ := loadTwice_search
  have faithful := Index.faithful_ofProgram loadTwiceProgram []
  have one := oneBody_loadTwice
  rw [← index_loadTwiceProgram] at one
  have orderly := one.orderly (by decide) (by decide) noDeadCode_loadTwice
  have untangled := one.untangled faithful (by decide) (by decide)
  have asks : Asks loadTwiceProgram sinkPattern (.body ⟨0, 0⟩ 9) :=
    ⟨⟨0, 0⟩, 9, _, _, _, rfl, rfl, rfl, .inr (by decide)⟩
  exact ⟨result, found, fun e =>
    backward_never_illogical described_loadTwice orderly untangled fewIterations (by simp [sinkPattern]) isSeed asks found e⟩

/-! ### A return that is in the way -/

/-- A body that returns inside the range of its handler. -/
def caughtReturn : Method where
  owner := "LMain;"
  name := "run"
  params := []
  result := "V"
  flags := [.static]
  lines := #[
    ⟨1, "const-class", .constClass "v0" "LKey;", ""⟩,
    ⟨2, "", .label "start", ""⟩,
    ⟨3, "invoke-static", .invoke [] ⟨"LSink;", "call", [], "V"⟩, ""⟩,
    ⟨4, "return-void", .returnVoid, ""⟩,
    ⟨5, "", .label "stop", ""⟩,
    ⟨6, ".catchall", .handler ⟨"", "start", "stop", "handler"⟩, ""⟩,
    ⟨7, "", .label "handler", ""⟩,
    ⟨8, "invoke-static", .invoke ["v0"] ⟨"LSink;", "take", ["LKey;"], "V"⟩, ""⟩,
    ⟨9, "return-void", .returnVoid, ""⟩]

def caughtReturnProgram : Program := Index.oneMethod caughtReturn

/-- The graph of that body: the block of the range returns and goes on to that of the handler. -/
def caughtReturnGraph : BlockGraph.Graph where
  blocks := #[
    { lines := [0, 1, 2, 3, 4, 5], label := some 0, preds := [], succs := [1], returns := true, throws := false,
      jumps := false, dead := false, isTry := true, isHandler := false },
    { lines := [6, 7, 8], label := some 1, preds := [0], succs := [], returns := true, throws := false,
      jumps := false, dead := false, isTry := false, isHandler := true }]
  tries := [{ start := 1, stop := 4, handlers := [6], types := ["*"] }]

def caughtReturnIndex : Index := .single caughtReturn caughtReturnGraph [2, 7]

theorem index_caughtReturnProgram : (Index.ofProgram caughtReturnProgram []).index = caughtReturnIndex :=
  Index.index_oneMethod (by decide) (by cbv) (by decide) rfl

theorem oneBody_caughtReturn : Index.OneBody caughtReturnIndex caughtReturn caughtReturnGraph where
  method _ _ found := Program.eq_of_method? found rfl
  graph _ _ found := Index.graph?_of_insert rfl found
  uncalled := by cbv

theorem noDeadCode_caughtReturn : BlockGraph.NoDeadCode caughtReturn := by
  have load : BlockGraph.Reached caughtReturn 0 := ⟨0, by decide, .refl⟩
  have call : BlockGraph.Reached caughtReturn 2 := load.next rfl rfl (by decide) (by decide)
  have leaves : BlockGraph.Reached caughtReturn 3 := call.next rfl rfl (by decide) (by decide)
  have directive : BlockGraph.Directive caughtReturn 5 1 4 6 := ⟨_, rfl, by decide, by decide, by decide⟩
  have caught : BlockGraph.Reached caughtReturn 7 := call.raise (by decide) directive (by decide) (by decide)
  have leaves' : BlockGraph.Reached caughtReturn 8 := caught.next rfl rfl (by decide) (by decide)
  intro l runs
  have bound : l < 9 := BlockGraph.lt_size_of_executable runs
  interval_cases l <;> first | assumption | exact absurd runs (by decide)

/-- A search from a call of an orderly program, for an argument that the call has, ends with a logic error. -/
def Surprises (program : Program) (excluded : List String) (options : Options) (p : BackwardPattern) : Prop :=
  program.Described ∧ (Index.ofProgram program excluded).index.Orderly ∧ ∃ (i : Nat) (line : LineId)
    (result : SearchResult) (e : LogicError),
    (backwardSeeds (Index.ofProgram program excluded).index p)[i]? = some line ∧ Asks program p line ∧
      (backward (Index.ofProgram program excluded).index options p).searches[i]? = some result ∧
      result.outcome = .aborted (.logic e)

/-- The search from the handler of that body. -/
def caughtReturnSearch : Search where
  context := backwardContext caughtReturnIndex fewIterations sinkPattern 0
  line := .body ⟨0, 0⟩ 7
  seed := seedBackward (backwardContext caughtReturnIndex fewIterations sinkPattern 0) sinkPattern (.body ⟨0, 0⟩ 7)

/-- On the way up from the handler the return is in the way: its block is a try block, but none behind a handler. -/
theorem caughtReturn_surprises : Surprises caughtReturnProgram [] fewIterations sinkPattern := by
  refine ⟨Program.described_of_references (by cbv), ?_⟩
  rw [index_caughtReturnProgram]
  have orderly := oneBody_caughtReturn.orderly (by decide) (by decide) noDeadCode_caughtReturn
  have calls : (caughtReturnIndex.callSites.lines "take").toList = [LineId.body ⟨0, 0⟩ 7] :=
    (Index.lines_single "take").trans (by decide)
  have isSeed : (backwardSeeds caughtReturnIndex sinkPattern)[0]? = some (LineId.body ⟨0, 0⟩ 7) := by
    rw [backwardSeeds_sinkPattern calls (by simpa using ⟨_, rfl, by decide⟩)]
    rfl
  have asks : Asks caughtReturnProgram sinkPattern (.body ⟨0, 0⟩ 7) :=
    ⟨⟨0, 0⟩, 7, _, _, _, rfl, rfl, rfl, .inr (by decide)⟩
  have found : (backward caughtReturnIndex fewIterations sinkPattern).searches[0]? =
      some caughtReturnSearch.result := by
    have ran := Pattern.getElem?_searches caughtReturnIndex fewIterations 0 (.backward sinkPattern)
    rwa [Pattern.search?, isSeed] at ran
  have ended : caughtReturnSearch.run.1 =
      .error (.logic ⟨some (caughtReturnProgram.label (.body ⟨0, 0⟩ 3)), .returnInside 0⟩) := by cbv
  have outcome : caughtReturnSearch.result.outcome =
      .aborted (.logic ⟨some (caughtReturnProgram.label (.body ⟨0, 0⟩ 3)), .returnInside 0⟩) := by
    rw [Search.result, Search.outcome, ended]
  exact ⟨orderly, 0, _, _, _, isSeed, asks, found, outcome⟩

end SmaliTrace.Slice
