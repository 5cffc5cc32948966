import SmaliTrace.Proofs.Slice.Ceiling
import SmaliTrace.Proofs.Slice.GroundedRun

/-!
Caps only cut a search short. No item looks at the caps, so under larger caps a search takes the same turns: it
ends in the same way if the smaller caps were not reached, and goes on from where it was cut if they were.
-/
namespace SmaliTrace.Slice
open SmaliTrace.Smali SmaliTrace.ClassFile

/-- The same options with other caps. -/
def Options.capped (o : Options) (iterations completed : Int) : Options :=
  { o with maxIterations := iterations, maxCompleted := completed }

/-- The same surroundings with other caps. -/
def Context.capped (x : Context) (iterations completed : Int) : Context :=
  { x with options := x.options.capped iterations completed }

/-! ### Items do not look at the caps -/

section Capped

variable (x : Context) (m n : Int)

theorem payloadEntries_capped : payloadEntries (x.capped m n) = payloadEntries x := by
  funext method label inside lines
  induction lines generalizing inside with
  | nil => rfl
  | cons entry rest ih => simp only [payloadEntries, ih]; rfl

theorem payloadLoad_capped : payloadLoad (x.capped m n) = payloadLoad x := by
  funext r c s label
  unfold payloadLoad payload
  rw [payloadEntries_capped]
  rfl

theorem storesInBlock_capped : storesInBlock (x.capped m n) = storesInBlock x := by
  funext r c array call sites
  induction sites with
  | nil => rfl
  | cons s rest ih => simp only [storesInBlock, ih]; rfl

theorem walkStores_capped : walkStores (x.capped m n) = walkStores x := by
  funext r c array call f queue
  induction f, queue using walkStores.induct x with
  | case1 f => rw [walkStores, walkStores]
  | case2 f b position rest onward stay =>
    rw [walkStores, walkStores, storesInBlock_capped]
    refine bind_congr fun holds => ?_
    split
    · exact onward
    · exact stay

theorem arrayStores_capped : arrayStores (x.capped m n) = arrayStores x := by
  unfold arrayStores
  rw [walkStores_capped]
  rfl

theorem filledByCall_capped : filledByCall (x.capped m n) = filledByCall x := by
  unfold filledByCall argumentStores
  rw [arrayStores_capped]
  rfl

theorem arrayLines_capped : arrayLines (x.capped m n) = arrayLines x := by
  funext r c sites
  have line : arrayLine (x.capped m n) = arrayLine x := by
    unfold arrayLine arrayCall
    rw [payloadLoad_capped, filledByCall_capped]
    rfl
  induction sites generalizing c with
  | nil => rfl
  | cons s rest ih => simp only [arrayLines, line, ih]

theorem walkArray_capped : walkArray (x.capped m n) = walkArray x := by
  funext r f queue
  induction f, queue using walkArray.induct x with
  | case1 f => rw [walkArray, walkArray]
  | case2 f frame rest stay onward =>
    rw [walkArray, walkArray, arrayLines_capped]
    refine bind_congr fun left => ?_
    cases left with
    | none => exact stay
    | some c => exact bind_congr fun _ => onward c

theorem arrayOrigin_capped : arrayOrigin (x.capped m n) = arrayOrigin x := by
  unfold arrayOrigin
  rw [walkArray_capped]
  rfl

theorem backwardLines_capped : backwardLines (x.capped m n) = backwardLines x := by
  funext r c sites
  have line : backwardLine (x.capped m n) = backwardLine x := by
    unfold backwardLine backwardDefinition backwardCall
    rw [payloadLoad_capped, filledByCall_capped, arrayOrigin_capped]
    rfl
  induction sites generalizing c with
  | nil => rfl
  | cons s rest ih => simp only [backwardLines, line, ih]

theorem forwardLines_capped : forwardLines (x.capped m n) = forwardLines x := by
  funext r c sites
  have use : forwardUse (x.capped m n) = forwardUse x := rfl
  induction sites with
  | nil => rfl
  | cons s rest ih => simp only [forwardLines, use, ih]

theorem perform_capped (item : Item) : item.perform (x.capped m n) = item.perform x := by
  cases item with
  | register r =>
    unfold Item.perform searchRegister forwardRegister backwardRegister
    rw [forwardLines_capped, backwardLines_capped]
    rfl
  | content kind c =>
    unfold Item.perform searchContent backwardArrayField
    rw [arrayOrigin_capped, arrayStores_capped]
    rfl

end Capped

/-! ### Runs under two caps -/

variable {x : Context} {m n : Int} {τ : State}

/-- The second search ends as the first, unless the first reached a cap; then the second reached one there too, or
went on from there. -/
def Prolongs (x : Context) (first second : Except Fault Unit × State) : Prop :=
  second = first ∨ ∃ limit, first.1 = .error limit ∧ limit.isLimit = true ∧
    (second.2 = first.2 ∨ ∃ budget, second = exec (drain x budget) first.2)

/-- Counting an item leaves the same state under both caps, and reaches the larger one only if the smaller. -/
theorem settle_cases (completed : x.options.maxCompleted ≤ n) (item : Item) (τ : State) :
    (∃ ρ, item.settle x τ = (.ok (), ρ) ∧ item.settle (x.capped m n) τ = (.ok (), ρ)) ∨
      ∃ limit ρ, limit.isLimit = true ∧ item.settle x τ = (.error limit, ρ) ∧
        (item.settle (x.capped m n) τ = (.ok (), ρ) ∨ ∃ fault, item.settle (x.capped m n) τ = (.error fault, ρ)) := by
  cases item with
  | content kind c => exact .inl ⟨τ, rfl, rfl⟩
  | register r =>
    have cap : (x.capped m n).options.maxCompleted = n := rfl
    simp only [Item.settle, cap]
    by_cases reached : x.options.maxCompleted < (τ.work.complete.completed : Int)
    · refine .inr ⟨.searchLimit x.options.maxCompleted, _, rfl, if_pos reached, ?_⟩
      by_cases reached' : n < (τ.work.complete.completed : Int)
      · exact .inr ⟨_, if_pos reached'⟩
      · exact .inl (if_neg reached')
    · exact .inl ⟨_, if_neg reached, if_neg (by omega)⟩

theorem prolongs_drain (completed : x.options.maxCompleted ≤ n) {budget budget' : Nat} (le : budget ≤ budget')
    (σ : State) : Prolongs (x.capped m n) (exec (drain x budget) σ) (exec (drain (x.capped m n) budget') σ) := by
  induction budget generalizing σ budget' with
  | zero =>
    cases busy : σ.work.isFinished with
    | true =>
      rw [exec_drain_of_finished 0 busy, exec_drain_of_finished budget' busy]
      exact .inl rfl
    | false =>
      rw [exec_drain_zero busy]
      exact .inr ⟨_, rfl, rfl, .inr ⟨budget', rfl⟩⟩
  | succ budget ih =>
    obtain ⟨budget', rfl⟩ : ∃ more, budget' = more + 1 := ⟨budget' - 1, by omega⟩
    rcases take?_cases σ with ⟨_, nothing⟩ | ⟨item, ρ, taken, took⟩
    · have finished := Worklist.isFinished_iff.mpr nothing
      rw [exec_drain_of_finished _ finished, exec_drain_of_finished _ finished]
      exact .inl rfl
    · rw [exec_drain_succ budget took.not_isFinished, exec_drain_succ budget' took.not_isFinished,
        exec_performNext_of_take? taken, exec_performNext_of_take? taken, perform_capped]
      rcases exec (item.perform x) ρ with ⟨fault | ⟨⟩, τ⟩
      · exact .inl rfl
      · rcases settle_cases (m := m) completed item τ with
          ⟨τ', first, second⟩ | ⟨limit, τ', isLimit, first, second | ⟨fault, second⟩⟩
        · simp only [first, second]
          exact ih (by omega) τ'
        · simp only [first, second]
          exact .inr ⟨limit, rfl, isLimit, .inr ⟨budget', rfl⟩⟩
        · simp only [first, second]
          exact .inr ⟨limit, rfl, isLimit, .inl rfl⟩

/-! ### Searches under two caps -/

/-- The same search with other caps. -/
def Search.capped (s : Search) (iterations completed : Int) : Search :=
  { s with context := s.context.capped iterations completed }

theorem Pattern.search?_capped (index : Index) (options : Options) (m n : Int) (i : Nat) (pattern : Pattern) :
    pattern.search? index (options.capped m n) i =
      (pattern.search? index options i).map fun s => s.capped m n := by
  cases pattern with
  | backward p =>
    simp only [Pattern.search?, Option.map_map]
    rfl
  | forward p =>
    simp only [Pattern.search?, Option.map_map]
    rfl

theorem Pattern.planted_capped {index : Index} (faithful : index.Faithful) {options : Options} {i : Nat}
    {pattern : Pattern} {s : Search} (found : pattern.search? index options i = some s) (m n : Int) :
    (s.capped m n).context.index = index ∧
      Planted (s.capped m n).context (s.capped m n).line (s.capped m n).seed := by
  have found' : pattern.search? index (options.capped m n) i = some (s.capped m n) := by
    rw [Pattern.search?_capped, found]
    rfl
  obtain ⟨same, _, isPlanted⟩ := Pattern.planted_search? faithful found'
  exact ⟨same, isPlanted⟩

/-- Under larger caps, a search ends in the same way or goes on from where it was cut. -/
theorem Planted.run_capped {s : Search} (isPlanted : Planted s.context s.line s.seed)
    (faithful : s.context.index.Faithful) (iterations : s.context.options.maxIterations ≤ m)
    (completed : s.context.options.maxCompleted ≤ n) :
    (s.capped m n).run = s.run ∨
      ∃ limit, s.run.1 = .error limit ∧ limit.isLimit = true ∧ Widens s.run.2 (s.capped m n).run.2 := by
  have second : (s.capped m n).run =
    exec (do s.seed; drain (s.context.capped m n) m.toNat) (startState s.context) := rfl
  rw [second, Search.run, exec_bind, exec_bind]
  rcases isPlanted with ⟨fault, failed, _⟩ | ⟨key, edits, _⟩
  · rw [failed]
    exact .inl rfl
  · have grounded := Invariant.grounded.edits edits (grounded_planted s.context s.line key)
    rcases ran : exec s.seed (startState s.context) with ⟨fault | ⟨⟩, σ⟩ <;> rw [ran] at grounded
    · exact .inl rfl
    · have le : s.context.options.maxIterations.toNat ≤ m.toNat := Int.toNat_le_toNat iterations
      have after := (Invariant.grounded.drain faithful grounded grounded s.context.options.maxIterations.toNat).1
      rcases prolongs_drain completed le σ with same | ⟨limit, cut, isLimit, goesOn⟩
      · exact .inl same
      refine .inr ⟨limit, cut, isLimit, ?_⟩
      rcases goesOn with stuck | ⟨budget, resumed⟩
      · dsimp only
        rw [stuck]
        exact .refl _
      · dsimp only
        rw [resumed]
        exact ((Invariant.widens _).drain (x := s.context.capped m n) faithful after (.refl _) budget).1

/-- The search was cut short by a cap. -/
def Outcome.isCut : Outcome → Bool
  | .completed => false
  | .aborted fault => fault.isLimit

/-- What the first search found, the second found too: the lines in front of its others, all predecessors, and
the constants, at levels that are not higher. -/
structure SearchResult.Precedes (r r' : SearchResult) : Prop where
  lines : r.graph.lines <+: r'.graph.lines
  preds : ∀ id p, r.graph.Pred id p → r'.graph.Pred id p
  constants : ∀ k ∈ r.constants, ∃ k' ∈ r'.constants, k'.line = k.line ∧ k'.kind = k.kind ∧ k'.value = k.value ∧
    k'.node = k.node ∧ k'.fuzzy ≤ k.fuzzy

theorem precedes_of_widens {s s' : Search} (widens : Widens s.run.2 s'.run.2) : s.result.Precedes s'.result where
  lines := widens.lines
  preds := widens.preds
  constants k inside := by
    obtain ⟨k', kept, same, lower⟩ := widens.constants k (Array.mem_toList_iff.mp (List.mem_mergeSort.mp inside))
    refine ⟨k', List.mem_mergeSort.mpr (Array.mem_toList_iff.mpr kept), ?_⟩
    rw [same]
    exact ⟨rfl, rfl, rfl, rfl, lower⟩

theorem result_capped {s : Search} (same : (s.capped m n).run = s.run) : (s.capped m n).result = s.result := by
  simp only [Search.result, Search.outcome, same]
  rfl

/-- A search that was cut short adds nothing to the faults. -/
theorem faults_eraseIdx {c : Criterion} {i : Nat} {r : SearchResult} (found : c.searches[i]? = some r)
    (cut : r.outcome.isCut = true) : ({ c with searches := c.searches.eraseIdx i } : Criterion).faults = c.faults := by
  obtain ⟨bound, rfl⟩ := List.getElem?_eq_some_iff.mp found
  have split : c.searches = c.searches.take i ++ c.searches[i] :: c.searches.drop (i + 1) := by simp
  simp only [Criterion.faults]
  rw [List.eraseIdx_eq_take_drop_succ, List.filterMap_append]
  conv_rhs => rw [split]
  rw [List.filterMap_append, List.filterMap_cons]
  cases ended : c.searches[i].outcome with
  | completed => rfl
  | aborted fault =>
    have isLimit : fault.isLimit = true := by simpa only [ended, Outcome.isCut] using cut
    simp only [isLimit, if_true]

/-- Under larger caps, a search that was not cut short gives the same result. One that was cut short is the
beginning of what it gives under the larger caps, and adds no fault. -/
theorem caps_cut_short (program : Program) (excluded : List String) (options : Options) (iterations completed : Int)
    (moreIterations : options.maxIterations ≤ iterations) (moreCompleted : options.maxCompleted ≤ completed)
    (pattern : Pattern) (i : Nat) (r : SearchResult)
    (found : (pattern.slice (Index.ofProgram program excluded).index options).searches[i]? = some r) :
    ∃ r', (pattern.slice (Index.ofProgram program excluded).index
        (options.capped iterations completed)).searches[i]? = some r' ∧
      (r.outcome.isCut = false → r' = r) ∧
      (r.outcome.isCut = true → r.Precedes r' ∧
        let c := pattern.slice (Index.ofProgram program excluded).index options
        c.faults = ({ c with searches := c.searches.eraseIdx i } : Criterion).faults) := by
  have faithful := Index.faithful_ofProgram program excluded
  have silent := faults_eraseIdx found
  rw [Pattern.getElem?_searches] at found
  obtain ⟨s, isSearch, rfl⟩ := Option.map_eq_some_iff.mp found
  obtain ⟨index, same, isPlanted⟩ := Pattern.planted_search? faithful isSearch
  refine ⟨(s.capped iterations completed).result, ?_, ?_⟩
  · rw [Pattern.getElem?_searches, Pattern.search?_capped, isSearch]
    rfl
  rcases isPlanted.run_capped (index ▸ faithful) (same ▸ moreIterations) (same ▸ moreCompleted) with
    equal | ⟨limit, cut, isLimit, widens⟩
  · refine ⟨fun _ => result_capped equal, fun cut => ⟨precedes_of_widens ?_, (silent cut).symm⟩⟩
    rw [equal]
    exact .refl _
  · have isCut : s.result.outcome.isCut = true := by
      simp only [Search.result, Search.outcome, cut]
      exact isLimit
    exact ⟨fun uncut => absurd isCut (by simp [uncut]), fun cut => ⟨precedes_of_widens widens, (silent cut).symm⟩⟩

/-- The search from the sink of two ways, under a cap on its items. -/
def twoWaysSearch (iterations : Int) : Search :=
  let context := backwardContext twoWaysIndex ((ceilingOf 1).capped iterations 16) sinkPattern 0
  ⟨context, .body ⟨0, 0⟩ 17, seedBackward context sinkPattern (.body ⟨0, 0⟩ 17)⟩

theorem search?_twoWays (iterations : Int) :
    (Pattern.backward sinkPattern).search? (Index.ofProgram twoWaysProgram []).index
      ((ceilingOf 1).capped iterations 16) 0 = some (twoWaysSearch iterations) := by
  rw [index_twoWaysProgram, Pattern.search?, seeds_twoWaysIndex]
  rfl

theorem getElem?_searches_twoWays (iterations : Int) :
    (backward (Index.ofProgram twoWaysProgram []).index ((ceilingOf 1).capped iterations 16)
      sinkPattern).searches[0]? = some (twoWaysSearch iterations).result := by
  refine (Pattern.getElem?_searches _ _ 0 (.backward sinkPattern)).trans ?_
  rw [search?_twoWays]
  rfl

/-- Four of eight items reach three of six lines. -/
theorem twoWays_cut_short :
    (ceilingOf 1).maxCompleted ≤ 16 ∧ ∃ r r',
      (backward (Index.ofProgram twoWaysProgram []).index ((ceilingOf 1).capped 4 16) sinkPattern).searches[0]? =
        some r ∧ r.outcome = .aborted (.iterationLimit 4) ∧ r.graph.nodes.size = 3 ∧
      (backward (Index.ofProgram twoWaysProgram []).index ((ceilingOf 1).capped 8 16) sinkPattern).searches[0]? =
        some r' ∧ r'.outcome = .completed ∧ r'.graph.nodes.size = 6 ∧ r.Precedes r' := by
  have cut : ((twoWaysSearch 4).run.1, (twoWaysSearch 4).run.2.work.graph.nodes.size) =
      (.error (.iterationLimit 4), 3) := by cbv
  have whole : ((twoWaysSearch 8).run.1, (twoWaysSearch 8).run.2.work.graph.nodes.size) = (.ok (), 6) := by cbv
  rw [Prod.mk.injEq] at cut whole
  have isCut : (twoWaysSearch 4).result.outcome = .aborted (.iterationLimit 4) := by
    simp only [Search.result, Search.outcome, cut.1]
  have isWhole : (twoWaysSearch 8).result.outcome = .completed := by
    simp only [Search.result, Search.outcome, whole.1]
  obtain ⟨r', found', _, precedes⟩ := caps_cut_short twoWaysProgram [] ((ceilingOf 1).capped 4 16) 8 16 (by decide)
    (by decide) (.backward sinkPattern) 0 _ (getElem?_searches_twoWays 4)
  cases found'.symm.trans (getElem?_searches_twoWays 8)
  exact ⟨by decide, _, _, getElem?_searches_twoWays 4, isCut, cut.2, getElem?_searches_twoWays 8, isWhole, whole.2,
    (precedes (by rw [isCut]; rfl)).1⟩

end SmaliTrace.Slice
