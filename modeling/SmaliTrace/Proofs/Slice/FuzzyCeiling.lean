import SmaliTrace.Proofs.Slice.GroundedRun
import SmaliTrace.Proofs.Slice.Level
import SmaliTrace.Proofs.Slice.Recording

/-!
The fuzzy ceiling on what a search finds. The ceiling is checked when an item is asked for, so every item that is
performed keeps below it, and with it every constant that is recorded at the level of its item. The one constant
recorded above its item, that of a library call which may fill an array, is not checked again: it can end up one
level above the ceiling.
-/
namespace SmaliTrace.Slice
open SmaliTrace.Smali SmaliTrace.ClassFile

variable {x : Context} {σ τ ρ : State} {item : Item} {level offset : Int}
  {tops : BlockId → Register → Prop} {fits : Int → Int → Prop}

/-- The level and the offset are those that items have under a ceiling. -/
structure Within (ceiling level offset : Int) : Prop where
  low : 0 ≤ level
  high : level ≤ ceiling
  lowOffset : 0 ≤ offset
  highOffset : offset ≤ max 0 (ceiling - 3)

/-- What an item asks for fits as the item does, if the ceiling admits it. -/
def Closed (ceiling : Int) (fits : Int → Int → Prop) : Prop :=
  ∀ level offset level' offset', fits level offset → (level' = level ∨ level' = level + 1) →
    (offset' = offset ∨ offset' = max offset (Number.wrap (ceiling - 3))) → Admits ceiling level' offset' →
    fits level' offset'

/-- A request that passes the check is within the ceiling again. -/
theorem closed_within {ceiling : Int} (nonneg : 0 ≤ ceiling) (bounded : ceiling < 2 ^ 62) :
    Closed ceiling (Within ceiling) := by
  rintro level offset level' offset' ⟨low, high, lowOffset, highOffset⟩ atLevel atOffset fits
  rw [Number.wrap_eq (by omega) (by omega)] at atOffset
  have lowOffset' : 0 ≤ offset' := by omega
  have highOffset' : offset' ≤ max 0 (ceiling - 3) := by omega
  -- neither the level nor the offset is near the end of a word, so that their sum is what it says
  rw [Admits, Number.wrap_eq (by omega) (by omega)] at fits
  exact ⟨by omega, by omega, lowOffset', highOffset'⟩

/-- Everything that waits is proper. -/
def State.Proper (x : Context) (σ : State) : Prop := ∀ item, σ.work.Waits item → item.Proper x

/-- What waits fits and is proper, and every constant was recorded by an item that fits. -/
structure Accounted (x : Context) (fits : Int → Int → Prop) (σ : State) : Prop where
  ceiling : σ.work.maxFuzzy = x.options.maxFuzzy
  proper : σ.Proper x
  waits : ∀ item, σ.work.Waits item → fits item.level item.offset
  recorded : ∀ k ∈ σ.constants, ∃ level offset tops k₀, fits level offset ∧ Recorded x tops level k₀ ∧ k₀.Lowered k

/-! ### One edit -/

theorem RecordEdit.edit (edit : RecordEdit x tops level offset σ τ) : Edit σ τ := by
  cases edit with
  | request item =>
    cases item with
    | register r => exact .register σ r
    | content kind c => exact .content σ kind c
  | node line pred key => exact .node σ line pred key
  | constant line pred register target => exact .constant σ line pred register target
  | produced id key => exact .produced σ id key
  | kept k => exact .kept σ k

theorem waits_ask {other : Item} (waiting : (σ.ask item).work.Waits other) : σ.work.Waits other ∨ other = item := by
  cases item with
  | register r => exact waits_accept (.register r) (Worklist.waits_enqueueRegister r) waiting
  | content kind c => exact waits_accept (.content kind c) (Worklist.waits_enqueueContent kind c) waiting

/-- What is kept is the constant itself, or one that was there, at a level that is not higher. -/
theorem of_mem_keep {k k' : Constant} (inside : k' ∈ (σ.keep k).constants) :
    k' = k ∨ ∃ k₀ ∈ σ.constants, k₀.Lowered k' := by
  unfold State.keep addConstant at inside
  split at inside
  · obtain ⟨j, isAt⟩ := Array.mem_iff_getElem?.mp inside
    rw [Array.getElem?_modify] at isAt
    split at isAt
    · obtain ⟨k₀, at₀, rfl⟩ := Option.map_eq_some_iff.mp isAt
      exact .inr ⟨k₀, Array.mem_of_getElem? at₀, rfl, min_le_left ..⟩
    · exact .inr ⟨k', Array.mem_of_getElem? isAt, .refl k'⟩
  · rcases Array.mem_push.mp inside with old | rfl
    · exact .inr ⟨k', old, .refl k'⟩
    · exact .inl rfl

/-- No edit makes anything wait that is not proper. -/
theorem RecordEdit.proper (edit : RecordEdit x tops level offset σ τ) (known : σ.Proper x) : τ.Proper x := by
  intro other waiting
  cases edit with
  | request item proper =>
    rcases waits_ask waiting with old | rfl
    · exact known other old
    · exact proper
  | node => exact known other (by cases other <;> exact waiting)
  | constant => exact known other (by cases other <;> exact waiting)
  | produced id key => exact known other ((Worklist.relinked_produce σ.work id key).waits.mp waiting)
  | kept => exact known other waiting

/-- Neither does an action that is made of such edits. -/
theorem State.Proper.run {α : Type} {a : SearchM α} (known : σ.Proper x)
    (records : RecordsAt x tops level offset a) : (exec a σ).2.Proper x := by
  have edits := records.run σ
  generalize (exec a σ).2 = τ at edits ⊢
  induction edits with
  | refl => exact known
  | tail _ edit ih => exact edit.proper ih

theorem State.Proper.take (known : σ.Proper x) (takes : Takes item σ ρ) : ρ.Proper x :=
  fun other waiting => known other (takes.before other waiting)

theorem State.proper_startState (x : Context) : (startState x).Proper x :=
  fun item waiting => absurd waiting (not_waits_startState x item)

section Closed

variable (closed : Closed x.options.maxFuzzy fits)
include closed

theorem Accounted.edit (accounted : Accounted x fits σ) (start : fits level offset)
    (edit : RecordEdit x tops level offset σ τ) : Accounted x fits τ := by
  have enlists := edit.edit.enlists
  have ceiling := enlists.maxFuzzy.trans accounted.ceiling
  have proper := edit.proper accounted.proper
  have same : (∀ item, τ.work.Waits item → σ.work.Waits item) → τ.constants = σ.constants → Accounted x fits τ :=
    fun waits constants =>
      ⟨ceiling, proper, fun item waiting => accounted.waits item (waits item waiting), constants ▸ accounted.recorded⟩
  cases edit with
  | request item _ atLevel atOffset =>
    refine ⟨ceiling, proper, fun other waiting => ?_, ?_⟩
    · rcases enlists.fresh other waiting with old | ⟨_, fits⟩
      · exact accounted.waits other old
      · rcases waits_ask waiting with old | rfl
        · exact accounted.waits other old
        · rw [tooFuzzy_eq_false_iff, ceiling] at fits
          exact closed _ _ _ _ start atLevel atOffset fits
    · cases item <;> exact accounted.recorded
  | node => exact same (fun item waiting => by cases item <;> exact waiting) rfl
  | constant => exact same (fun item waiting => by cases item <;> exact waiting) rfl
  | produced id key =>
    exact same (fun item => (Worklist.relinked_produce σ.work id key).waits.mp) rfl
  | kept k recorded =>
    refine ⟨ceiling, proper, accounted.waits, fun k' inside => ?_⟩
    rcases of_mem_keep inside with rfl | ⟨k₁, inside, lowered⟩
    · exact ⟨level, offset, tops, k', start, recorded, .refl k'⟩
    · obtain ⟨level₀, offset₀, tops₀, k₀, start₀, recorded₀, lowered₀⟩ := accounted.recorded k₁ inside
      exact ⟨level₀, offset₀, tops₀, k₀, start₀, recorded₀, lowered₀.trans lowered⟩

theorem Accounted.run {α : Type} {a : SearchM α} (accounted : Accounted x fits σ) (start : fits level offset)
    (records : RecordsAt x tops level offset a) : Accounted x fits (exec a σ).2 := by
  have edits := records.run σ
  generalize (exec a σ).2 = τ at edits ⊢
  induction edits with
  | refl => exact accounted
  | tail _ edit ih => exact ih.edit closed start edit

/-! ### Whole searches -/

omit closed in
theorem Accounted.take (accounted : Accounted x fits σ) (takes : Takes item σ ρ) : Accounted x fits ρ :=
  ⟨takes.maxFuzzy.trans accounted.ceiling, accounted.proper.take takes,
    fun other waiting => accounted.waits other (takes.before other waiting), takes.constants ▸ accounted.recorded⟩

/-- A turn keeps the accounts, whether its item succeeds or not. -/
theorem Accounted.drain (faithful : x.index.Faithful) (accounted : Accounted x fits σ) (budget : Nat) :
    Accounted x fits (exec (drain x budget) σ).2 := by
  refine drain_preserves (P := Accounted x fits) ?_ ?_ budget accounted
  · intro item σ ρ taken accounted
    have takes := takes_of_take? taken
    have start := accounted.waits item takes.waited
    have proper := accounted.proper item takes.waited
    exact (accounted.take takes).run closed start (item.recordsAt_perform faithful proper)
  · intro σ accounted
    exact ⟨accounted.ceiling, fun item waiting => accounted.proper item (by cases item <;> exact waiting),
      fun item waiting => accounted.waits item (by cases item <;> exact waiting), accounted.recorded⟩

omit closed in
theorem accounted_startState (x : Context) : Accounted x fits (startState x) :=
  ⟨rfl, State.proper_startState x, fun item waiting => absurd waiting (not_waits_startState x item),
    fun k inside => by simp [startState] at inside⟩

omit closed in
theorem recordsAt_seedBackward (p : BackwardPattern) (line : LineId) :
    RecordsAt x (fun _ _ => False) 0 0 (seedBackward x p line) := by
  unfold seedBackward
  split
  · exact .illogical
  · next s _ =>
    have reads : ∀ σ, (∃ fault, exec (seedRegister x p s) σ = (.error fault, σ)) ∨
        ∃ register, exec (seedRegister x p s) σ = (.ok register, σ) ∧ True := by
      intro σ
      rcases seedRegister_cases x p s σ with ⟨fault, failed, _⟩ | ⟨register, _, found⟩
      · exact .inl ⟨fault, failed⟩
      · exact .inr ⟨register, found, trivial⟩
    exact .reading reads fun register _ =>
      recordsAt_addNode.bind fun _ => recordsAt_admitRegister (.inl rfl) rfl

omit closed in
theorem recordsAt_seedForward (seed : ForwardSeed) : RecordsAt x (fun _ _ => False) 0 0 (seedForward seed) := by
  refine recordsAt_addNode.bind fun id => ?_
  dsimp only
  split
  · exact RecordsAt.pure.bind fun _ => recordsAt_admitRegister (.inl rfl) rfl
  · exact recordsAt_addNode.bind fun _ => recordsAt_admitRegister (.inl rfl) rfl

theorem Accounted.search (faithful : x.index.Faithful) (start : fits 0 0) {seed : SearchM Unit}
    (records : RecordsAt x tops 0 0 seed) (line : LineId) : Accounted x fits (⟨x, line, seed⟩ : Search).run.2 := by
  have seeded := (accounted_startState x).run closed start records
  unfold Search.run
  rw [exec_bind]
  rcases ran : exec seed (startState x) with ⟨fault | ⟨⟩, τ⟩ <;> rw [ran] at seeded
  · exact seeded
  · exact seeded.drain closed faithful _

end Closed

variable {p : Program} {excluded : List String} {options : Options} {pattern : Pattern} {i : Nat}
  {result : SearchResult}

theorem Pattern.context_of_search? {index : Index} {s : Search}
    (found : pattern.search? index options i = some s) :
    s.context.index = index ∧ s.context.options = options ∧
      (s.context.forward = false → ∃ q, pattern = .backward q) := by
  cases pattern with
  | backward q =>
    obtain ⟨line, _, rfl⟩ := Option.map_eq_some_iff.mp found
    exact ⟨rfl, rfl, fun _ => ⟨q, rfl⟩⟩
  | forward q =>
    obtain ⟨seed, _, rfl⟩ := Option.map_eq_some_iff.mp found
    exact ⟨rfl, rfl, fun backward => by simp at backward⟩

/-- Every constant of a search was recorded by an item that fits. -/
theorem Pattern.exists_recorded (closed : Closed options.maxFuzzy fits) (start : fits 0 0)
    (found : (pattern.slice (Index.ofProgram p excluded).index options).searches[i]? = some result)
    {k : Constant} (kept : k ∈ result.constants) :
    ∃ s level offset tops k₀, pattern.search? (Index.ofProgram p excluded).index options i = some s ∧
      fits level offset ∧ Recorded s.context tops level k₀ ∧ k₀.Lowered k := by
  rw [Pattern.getElem?_searches] at found
  obtain ⟨s, isSearch, rfl⟩ := Option.map_eq_some_iff.mp found
  obtain ⟨isIndex, isOptions, -⟩ := context_of_search? isSearch
  have faithful : s.context.index.Faithful := isIndex ▸ Index.faithful_ofProgram p excluded
  have accounted : Accounted s.context fits s.run.2 := by
    rw [← isOptions] at closed
    cases pattern with
    | backward q =>
      obtain ⟨line, _, rfl⟩ := Option.map_eq_some_iff.mp isSearch
      exact Accounted.search closed faithful start (recordsAt_seedBackward q line) line
    | forward q =>
      obtain ⟨seed, _, rfl⟩ := Option.map_eq_some_iff.mp isSearch
      exact Accounted.search closed faithful start (recordsAt_seedForward seed) _
  have kept' : k ∈ s.run.2.constants := by
    simpa [Search.result, sortConstants, List.mem_mergeSort] using kept
  obtain ⟨level, offset, tops, k₀, start, recorded, lowered⟩ := accounted.recorded k kept'
  exact ⟨s, level, offset, tops, k₀, isSearch, start, recorded, lowered⟩

/-- However a search ends, its constants are below the fuzzy ceiling. One level above it there can only be those of
a backward search that stand for a library call which may have filled an array. Levels and offsets are machine integers:
a ceiling below `2 ^ 62` keeps their sums from wrapping around, and beyond it nothing is said. -/
theorem Pattern.fuzzy_le_of_mem_constants (nonneg : 0 ≤ options.maxFuzzy) (bounded : options.maxFuzzy < 2 ^ 62)
    (found : (pattern.slice (Index.ofProgram p excluded).index options).searches[i]? = some result)
    {k : Constant} (kept : k ∈ result.constants) :
    k.fuzzy ≤ options.maxFuzzy ∨
      k.fuzzy = options.maxFuzzy + 1 ∧ k.kind = .externalMethod ∧ (∃ q, pattern = .backward q) ∧
        ∃ arguments method, p.operation? k.line = some (.invoke arguments method) ∧
          (Index.ofProgram p excluded).index.resolve? method = none := by
  have start : Within options.maxFuzzy 0 0 := ⟨by omega, nonneg, by omega, by omega⟩
  obtain ⟨s, level, _, _, k₀, isSearch, ⟨low, high, _, _⟩, recorded, same, lowered⟩ :=
    exists_recorded (closed_within nonneg bounded) start found kept
  obtain ⟨isIndex, -, isBackward⟩ := context_of_search? isSearch
  rcases recorded.fuzzy_cases with atLevel | ⟨above, backward, isExternal, method, calls, unresolved⟩
  · exact .inl (by omega)
  · have sameKind : k.kind = k₀.kind := by rw [same]
    have sameLine : k.line = k₀.line := by rw [same]
    rw [IsCall, ← sameLine, Context.program, isIndex, Index.program_ofProgram] at calls
    obtain ⟨arguments, calls⟩ := calls
    rw [isIndex] at unresolved
    by_cases below : k.fuzzy ≤ options.maxFuzzy
    · exact .inl below
    · exact .inr ⟨by omega, sameKind.trans isExternal, isBackward backward, arguments, method, calls, unresolved⟩

/-! ### An array filled under the ceiling 0 -/

/-- A body that hands a new array to a library call, and then an element of it on to the sink. -/
def fillArray : Method where
  owner := "LMain;"
  name := "run"
  params := ["I"]
  result := "V"
  flags := [.static]
  lines := #[
    ⟨1, "new-array", .newArray "v0" "p0" "[I", ""⟩,
    ⟨2, "invoke-static", .invoke ["v0"] ⟨"LLib;", "fill", ["[I"], "V"⟩, ""⟩,
    ⟨3, "aget", .arrayGet "v1" "v0" "p0", ""⟩,
    ⟨4, "invoke-static", .invoke ["v1"] ⟨"LSink;", "take", ["I"], "V"⟩, ""⟩,
    ⟨5, "return-void", .returnVoid, ""⟩]

def fillArrayProgram : Program := Index.oneMethod fillArray

def fillArrayGraph : BlockGraph.Graph where
  blocks := #[
    { lines := [0, 1, 2, 3, 4], label := some 0, preds := [], succs := [], returns := true, throws := false,
      jumps := false, dead := false, isTry := false, isHandler := false }]

def fillArrayIndex : Index := .single fillArray fillArrayGraph [1, 3]

theorem index_fillArrayProgram : (Index.ofProgram fillArrayProgram []).index = fillArrayIndex :=
  Index.index_oneMethod (by decide) (by cbv) (by decide) rfl

/-- The run of the search from the sink of that body. -/
def fillArrayRun : Except Fault Unit × State :=
  exec (do
    seedBackward (backwardContext fillArrayIndex (ceilingOf 0) sinkPattern 0) sinkPattern (.body ⟨0, 0⟩ 3)
    drain (backwardContext fillArrayIndex (ceilingOf 0) sinkPattern 0) (ceilingOf 0).maxIterations.toNat)
    (startState (backwardContext fillArrayIndex (ceilingOf 0) sinkPattern 0))

/-- The call is one level above, the allocation is not. -/
theorem fillArrayRun_eq : (fillArrayRun.1, fillArrayRun.2.constants.toList.map fun k => (k.line, k.fuzzy)) =
    (.ok (), [(.body ⟨0, 0⟩ 1, 1), (.body ⟨0, 0⟩ 0, 0)]) := by cbv

theorem exists_completed_fillArray :
    ∃ result : SearchResult,
      (backward (Index.ofProgram fillArrayProgram []).index (ceilingOf 0) sinkPattern).searches[0]? = some result ∧
      result.outcome = .completed ∧ ∃ k ∈ result.constants, k.line = .body ⟨0, 0⟩ 1 ∧ k.fuzzy = 1 := by
  obtain ⟨ended, constants⟩ := Prod.mk.inj fillArrayRun_eq
  have calls : (fillArrayIndex.callSites.lines "take").toList = [LineId.body ⟨0, 0⟩ 3] :=
    (Index.lines_single "take").trans (by decide)
  have isSeed : (backwardSeeds fillArrayIndex sinkPattern)[0]? = some (LineId.body ⟨0, 0⟩ 3) := by
    rw [backwardSeeds_sinkPattern calls (by simpa using ⟨_, rfl, by decide⟩)]
    rfl
  obtain ⟨result, found, completed, same⟩ := exists_completed_of_ran isSeed ended
  rw [index_fillArrayProgram]
  refine ⟨result, found, completed, ?_⟩
  have inside : (LineId.body ⟨0, 0⟩ 1, (1 : Int)) ∈ fillArrayRun.2.constants.toList.map fun k => (k.line, k.fuzzy) := by
    rw [constants]
    exact List.mem_cons_self
  obtain ⟨k, kept, isCall⟩ := List.mem_map.mp inside
  obtain ⟨line, fuzzy⟩ := Prod.mk.inj isCall
  exact ⟨k, (same k).mpr (Array.mem_toList_iff.mp kept), line, fuzzy⟩

/-- Under the ceiling 0 the call that may fill the array is found at the level 1. -/
theorem fillArray_above_ceiling :
    ∃ result : SearchResult, ∃ k ∈ result.constants,
      (backward (Index.ofProgram fillArrayProgram []).index (ceilingOf 0) sinkPattern).searches[0]? = some result ∧
      0 ≤ (ceilingOf 0).maxFuzzy ∧ ¬ k.fuzzy ≤ (ceilingOf 0).maxFuzzy := by
  obtain ⟨result, found, _, k, kept, _, fuzzy⟩ := exists_completed_fillArray
  refine ⟨result, k, kept, found, by decide, ?_⟩
  rw [fuzzy]
  decide

/-- That call is the one exception there is. -/
theorem fillArray_filled :
    ∃ result : SearchResult, ∃ k ∈ result.constants,
      ((Pattern.backward sinkPattern).slice (Index.ofProgram fillArrayProgram []).index (ceilingOf 0)).searches[0]? =
        some result ∧
      (0 ≤ (ceilingOf 0).maxFuzzy ∧ (ceilingOf 0).maxFuzzy < 2 ^ 62) ∧ k.fuzzy = 1 ∧ k.kind = .externalMethod := by
  obtain ⟨result, found, _, k, kept, _, fuzzy⟩ := exists_completed_fillArray
  have bounds : 0 ≤ (ceilingOf 0).maxFuzzy ∧ (ceilingOf 0).maxFuzzy < 2 ^ 62 := by decide
  refine ⟨result, k, kept, found, bounds, fuzzy, ?_⟩
  have found' : ((Pattern.backward sinkPattern).slice (Index.ofProgram fillArrayProgram []).index
      (ceilingOf 0)).searches[0]? = some result := found
  have cases := Pattern.fuzzy_le_of_mem_constants bounds.1 bounds.2 found' kept
  rcases cases with below | ⟨_, isExternal, _⟩
  · rw [fuzzy] at below
    exact absurd below (by decide)
  · exact isExternal

end SmaliTrace.Slice
