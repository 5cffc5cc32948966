import SmaliTrace.Proofs.Slice.Turn
import SmaliTrace.Proofs.Slice.ValuePath

/-!
Forward searches are complete. An item walks down its block with one register, and asks for every other
register that the value is handed on to and for every successor of the block. In a finished search each of
these was walked in turn, so every forward path from the seed has been followed.
-/
namespace SmaliTrace.Slice
open SmaliTrace.Smali SmaliTrace.ClassFile

variable {x : Context} {r : RegisterSearch} {c c' : Cursor} {s : Site} {σ τ ρ : State}

/-- A register search was asked for that goes on from the place. -/
def State.AskedFrom (σ : State) (place : Place) : Prop :=
  ItemKey.register place.register place.block place.above ∈ σ.work.done

/-! ### One line -/

/-- The search goes on after every line that does not return the register. -/
theorem goesOn_of_forwardUse {goesOn : Bool} (uses : s.operation.uses c.register = true)
    (left : Leaves s.operation c.register) (ran : exec (forwardUse x r c s) σ = (.ok goesOn, τ)) :
    goesOn = true := by
  have passed : ∀ {ρ : State}, exec (pure true : SearchM Bool) ρ = (.ok goesOn, τ) → goesOn = true := by
    intro ρ ran
    cases ran
    rfl
  have follows : ∀ {a : SearchM Unit} {ρ : State}, exec (do a; pure true) ρ = (.ok goesOn, τ) →
      goesOn = true := by
    intro a ρ ran
    obtain ⟨_, _, _, last⟩ := exec_bind_eq_ok_iff.mp ran
    exact passed last
  unfold forwardUse at ran
  cases isOperation : s.operation with
  | returnValue value =>
    have same : c.register = value := by simpa [isOperation, Operation.uses, Operation.reads] using uses
    exact absurd (same ▸ isOperation) left.2
  | filledNewArray elements type =>
    rw [isOperation] at ran
    obtain ⟨_, _, _, ran⟩ := exec_bind_eq_ok_iff.mp ran
    exact follows ran
  | arrayPut value _ _ | instancePut value _ _ | staticPut value _ =>
    rw [isOperation] at ran
    dsimp only at ran
    split at ran
    · exact follows ran
    · exact passed ran
  | _ =>
    rw [isOperation] at ran
    first
    | exact follows ran
    | exact passed ran

/-- The register that a line hands the value on to is asked for below the line. -/
theorem mem_done_of_forwardUse {goesOn : Bool} {result : Register} (fits : σ.Fits r)
    (hands : s.operation.kind ∈ handing) (makes : s.operation.result? = some result)
    (ran : exec (forwardUse x r c s) σ = (.ok goesOn, τ)) :
    ItemKey.register result s.blockId ((s.position : Int) + 1) ∈ τ.work.done := by
  have asked : exec (do forwardResult r c s result; pure true) σ = (.ok goesOn, τ) →
      ItemKey.register result s.blockId ((s.position : Int) + 1) ∈ τ.work.done := by
    intro ran
    obtain ⟨_, _, used, last⟩ := exec_bind_eq_ok_iff.mp ran
    cases last
    obtain ⟨c', ρ, stepped, forked⟩ := exec_bind_eq_ok_iff.mp used
    exact mem_done_of_fork (fits.grow ((develops_step ..).grows stepped)) forked
  unfold forwardUse at ran
  cases isOperation : s.operation with
  | move d _ | unaryMath d _ | literalMath d _ _ | inPlaceMath d _ | binaryMath d _ _ | arrayGet d _ _
  | compare d _ _ | instanceOf d _ _ | arrayLength d _ | instanceGet d _ _ =>
    rw [isOperation] at ran makes
    cases makes
    exact asked ran
  | _ => simp [isOperation, Operation.kind, handing] at hands

/-- A call of a method outside the program keeps its line. -/
theorem hasConstant_of_forwardUse {goesOn : Bool} {arguments : List Register} {method : MethodRef}
    (calls : s.operation = .invoke arguments method) (foreign : x.index.resolve? method = none)
    (plain : x.options.redirects.get? method.signature = none)
    (ran : exec (forwardUse x r c s) σ = (.ok goesOn, τ)) : τ.HasConstant s.id := by
  have direct : redirectFrom? x s c.register = none := by simp [redirectFrom?, calls, Operation.method?, plain]
  simp only [forwardUse, calls, forwardCall, direct, foreign, Option.bind_none, Option.filter_none] at ran
  obtain ⟨_, ρ₁, called, last⟩ := exec_bind_eq_ok_iff.mp ran
  cases last
  obtain ⟨_, ρ₂, _, called⟩ := exec_bind_eq_ok_iff.mp called
  obtain ⟨c', ρ₃, ended, followed⟩ := exec_bind_eq_ok_iff.mp called
  exact ((develops_followPickUp ..).grows followed).constants _ (keeps_of_terminal ended).2.1

/-! ### One block -/

theorem linesOn_of_getElem? {b : BlockId} {n : Nat} (line : (x.index.sites b)[n]? = some s) :
    linesOn x b n = s :: linesOn x b ((n + 1 : Nat) : Int) := by
  obtain ⟨bound, rfl⟩ := List.getElem?_eq_some_iff.mp line
  simp only [linesOn, Int.toNat_natCast]
  exact List.drop_eq_getElem_cons bound

/-- The line that a walk comes to first is used if it reads the register, and passed if it leaves the register
alone. -/
theorem forwardLines_cons_cases {rest : List Site} {holds : Bool}
    (ran : exec (forwardLines x r c (s :: rest)) σ = (.ok holds, τ)) :
    ∃ ρ, Grows σ ρ ∧ Grows ρ τ ∧
      (s.operation.uses c.register = true → ∃ goesOn, exec (forwardUse x r c s) σ = (.ok goesOn, ρ)) ∧
      (Leaves s.operation c.register → exec (forwardLines x r c rest) ρ = (.ok holds, τ)) := by
  have later : ∀ {goesOn : Bool} {ρ : State}, exec (if goesOn && !s.operation.defines c.register then
      forwardLines x r c rest else pure false) ρ = (.ok holds, τ) → Grows ρ τ := by
    intro goesOn ρ ran
    split at ran
    · exact (develops_forwardLines ..).grows ran
    · exact (Develops.pure _).grows ran
  have onward : ∀ {ρ : State}, exec (if true && !s.operation.defines c.register then
      forwardLines x r c rest else pure false) ρ = (.ok holds, τ) → Leaves s.operation c.register →
      exec (forwardLines x r c rest) ρ = (.ok holds, τ) := by
    intro ρ ran left
    have spared : s.operation.defines c.register = false := by simpa [Operation.defines] using left.1
    simpa [spared] using ran
  unfold forwardLines at ran
  dsimp only at ran
  split at ran
  · next uses =>
    obtain ⟨goesOn, ρ, used, ran⟩ := exec_bind_eq_ok_iff.mp ran
    refine ⟨ρ, (develops_forwardUse ..).grows used, later ran, fun _ => ⟨goesOn, used⟩, fun left => ?_⟩
    rw [goesOn_of_forwardUse uses left used] at ran
    exact onward ran left
  · next unused =>
    obtain ⟨_, _, same, ran⟩ := exec_bind_eq_ok_iff.mp ran
    cases same
    exact ⟨σ, .refl σ, later ran, fun uses => absurd uses unused, onward ran⟩

/-- An item went on from the place with the register, down to the end of the block. -/
def Walks (x : Context) (τ : State) (place : Place) : Prop :=
  ∃ r c σ ρ holds, c.register = place.register ∧ σ.Fits r ∧ Gains ρ τ ∧
    exec (forwardLines x r c (linesOn x place.block place.above)) σ = (.ok holds, ρ) ∧
    (holds = true → ∀ i ∈ neighbours x place.block (·.succs), τ.AskedFrom ⟨place.register, ⟨place.block.method, i⟩, 0⟩)

theorem walks_of_step (faithful : x.index.Faithful) {place next : Place} (walks : Walks x τ place)
    (step : ForwardStep x.index place next) : Walks x τ next ∨ τ.AskedFrom next := by
  obtain ⟨r, c, σ, ρ, holds, same, fits, gains, ran, leaves⟩ := walks
  cases step with
  | pass line left =>
    rw [linesOn_of_getElem? line] at ran
    obtain ⟨π, before, -, -, rest⟩ := forwardLines_cons_cases ran
    exact .inl ⟨r, c, π, ρ, holds, same, fits.grow before, gains, rest (same ▸ left), leaves⟩
  | through line uses hands makes =>
    rw [linesOn_of_getElem? line] at ran
    obtain ⟨π, -, after, used, -⟩ := forwardLines_cons_cases ran
    obtain ⟨_, used⟩ := used (by rwa [same])
    obtain ⟨here, position, -⟩ := faithful.site_of_getElem? line
    have asked := mem_done_of_forwardUse fits hands makes used
    rw [here, position] at asked
    exact .inr (gains.done _ (after.done _ asked))
  | @succ _ b i block found edge =>
    have none : linesOn x b (block.lines.length : Int) = [] := by
      rw [linesOn, Int.toNat_natCast, ← faithful.length_sites found, List.drop_length]
    rw [none] at ran
    cases ran
    exact .inr (leaves rfl i (by simpa [neighbours, found] using edge))

theorem hasConstant_of_walks {place : Place} {line : LineId} (walks : Walks x τ place)
    (delivers : Delivers x.index x.options place line) : τ.HasConstant line := by
  obtain ⟨r, c, σ, ρ, holds, same, _, gains, ran, _⟩ := walks
  cases delivers with
  | intro line calls uses foreign plain =>
    rw [linesOn_of_getElem? line] at ran
    obtain ⟨π, -, after, used, -⟩ := forwardLines_cons_cases ran
    obtain ⟨_, used⟩ := used (by simpa [calls, Operation.uses, Operation.reads, same] using uses)
    exact gains.hasConstant (after.constants _ (hasConstant_of_forwardUse calls foreign plain used))

/-! ### Whole searches -/

/-- A place that was asked for was walked by the item of its key. -/
theorem walks_of_asked {items : List Item} {place : Place} (forward : x.forward = true)
    (drained : Drained x items τ) (asked : τ.AskedFrom place) : Walks x τ place := by
  obtain ⟨item, inside, isKey⟩ := drained.asked _ asked
  obtain ⟨σ, ρ, performs, _, gains, _, fits⟩ := drained.ran item inside
  cases item with
  | content kind search => simp [Item.key, ContentSearch.key] at isKey
  | register r =>
    obtain ⟨register, block, index⟩ := ItemKey.register.inj isKey
    simp only [Item.perform, searchRegister, forward, if_true] at performs
    obtain ⟨holds, π, walked, rest⟩ := exec_bind_eq_ok_iff.mp performs
    have enlists : Enlists π ρ := by
      refine Develops.enlists ?_ rest
      split
      · exact .forM fun _ _ => develops_admitRegister _
      · exact .pure _
    rw [block, index] at walked
    refine ⟨r, r.cursor, σ, π, holds, register, fits, enlists.toGains.trans gains, walked, fun onward i edge => ?_⟩
    subst onward
    obtain ⟨π', ρ', admitted, before, later⟩ :=
      exists_exec_of_forM (fun _ _ => develops_admitRegister _) rest (block ▸ edge)
    have fits' : π'.Fits r := (State.Fits.grow fits ((develops_forwardLines ..).grows walked)).grow before
    have keyed := mem_done_of_admitRegister (r := ⟨r.cursor.register, r.field, ⟨r.block.method, i⟩, 0, r.fuzzy,
      r.offset, r.cursor.origin, r.cursor.originRegister⟩) fits' admitted
    have keyed' := gains.done _ (later.done _ keyed)
    simpa [State.AskedFrom, RegisterSearch.key, RegisterSearch.cursor, register, block] using keyed'

/-- The context of the search of a forward pattern with the given number. -/
def forwardContext (index : Index) (options : Options) (i : Nat) : Context :=
  { index := index, options := options, search := i, forward := true, pattern := none }

theorem getElem?_searches_forward (index : Index) (options : Options) (p : ForwardPattern) (i : Nat) :
    (forward index options p).searches[i]? = (forwardSeeds index p)[i]?.map fun seed =>
      (runSearch (forwardContext index options i) p.text (seedForward seed)).result := by
  simp only [forward, runAll, List.getElem?_map, List.getElem?_zipIdx]
  cases (forwardSeeds index p)[i]? with
  | none => rfl
  | some seed => simp [forwardContext]

theorem asked_of_seedForward {seed : ForwardSeed} (bounded : 0 ≤ x.options.maxFuzzy)
    (ran : exec (seedForward seed) (startState x) = (.ok (), σ)) :
    σ.AskedFrom ⟨seed.register, seed.holder.blockId, seed.holder.position + 1⟩ := by
  have asked : ∀ {id : Nat} {ρ : State}, Grows (startState x) ρ → exec (admitRegister
      { register := seed.register, block := seed.holder.blockId, index := (seed.holder.position : Int) + 1,
        origin := some (id : Int), originRegister := seed.register }) ρ = (.ok (), σ) →
      σ.AskedFrom ⟨seed.register, seed.holder.blockId, seed.holder.position + 1⟩ := by
    intro id ρ grows admitted
    have zero : Number.wrap 0 = 0 := Number.wrap_eq (by omega) (by omega)
    refine mem_done_of_admitRegister ?_ admitted
    rw [State.Fits, tooFuzzy_congr grows.maxFuzzy]
    simpa [startState, Worklist.tooFuzzy, zero] using bounded
  obtain ⟨id, ρ, added, ran⟩ := exec_bind_eq_ok_iff.mp ran
  have grows := (develops_addNode ..).grows added
  dsimp only at ran
  split at ran
  · obtain ⟨_, _, same, admitted⟩ := exec_bind_eq_ok_iff.mp ran
    cases same
    exact asked grows admitted
  · obtain ⟨_, ρ', added', admitted⟩ := exec_bind_eq_ok_iff.mp ran
    exact asked (grows.trans ((develops_addNode ..).grows added')) admitted

/-- A completed forward search keeps every call of a method outside the program that a forward path from its
seed leads to. -/
theorem forward_keeps_deliveries (program : Program) (excluded : List String) (options : Options)
    (p : ForwardPattern) (bounded : 0 ≤ options.maxFuzzy) (i : Nat) (result : SearchResult)
    (found : (forward (Index.ofProgram program excluded).index options p).searches[i]? = some result)
    (completed : result.outcome = .completed) :
    ∃ seed, (forwardSeeds (Index.ofProgram program excluded).index p)[i]? = some seed ∧
      ∀ place line, ForwardPath (Index.ofProgram program excluded).index
          ⟨seed.register, seed.holder.blockId, seed.holder.position + 1⟩ place →
        Delivers (Index.ofProgram program excluded).index options place line →
        ∃ c ∈ result.constants, c.line = line := by
  have faithful := Index.faithful_ofProgram program excluded
  rw [getElem?_searches_forward] at found
  obtain ⟨seed, isSeed, rfl⟩ := Option.map_eq_some_iff.mp found
  obtain ⟨ran, -, constants⟩ := runSearch_of_completed completed
  obtain ⟨σ, seeded, -, drains, drained⟩ := drained_of_ran (develops_seedForward seed) ran
  have asked := gains_of_drain drains |>.done _ (asked_of_seedForward bounded seeded)
  refine ⟨seed, isSeed, fun place line path delivers => ?_⟩
  have walks : Walks (forwardContext (Index.ofProgram program excluded).index options i)
      (finalState (forwardContext (Index.ofProgram program excluded).index options i) (seedForward seed)) place := by
    clear delivers
    induction path with
    | refl => exact walks_of_asked rfl drained asked
    | tail _ step ih => exact (walks_of_step faithful ih step).elim id (walks_of_asked rfl drained)
  obtain ⟨c, kept, isLine⟩ := hasConstant_of_walks walks delivers
  refine ⟨c, ?_, isLine⟩
  rw [constants, sortConstants, List.mem_mergeSort]
  exact Array.mem_toList_iff.mpr kept

/-- A body that copies the result of a call and passes the copy on. -/
def passResult : Method where
  owner := "LMain;"
  name := "run"
  params := []
  result := "V"
  flags := [.static]
  lines := #[
    ⟨1, "invoke-static", .invoke [] ⟨"LSource;", "make", [], "LKey;"⟩, ""⟩,
    ⟨2, "move-result-object", .moveResult "v0", ""⟩,
    ⟨3, "move-object", .move "v1" "v0", ""⟩,
    ⟨4, "invoke-static", .invoke ["v1"] ⟨"LSink;", "take", ["LKey;"], "V"⟩, ""⟩,
    ⟨5, "return-void", .returnVoid, ""⟩]

def passResultProgram : Program := Index.oneMethod passResult

def passResultGraph : BlockGraph.Graph where
  blocks := #[
    { lines := [0, 1, 2, 3, 4], label := some 0, preds := [], succs := [], returns := true, throws := false,
      jumps := false, dead := false, isTry := false, isHandler := false }]

def passResultIndex : Index := .single passResult passResultGraph [0, 3]

theorem index_passResultProgram : (Index.ofProgram passResultProgram []).index = passResultIndex :=
  Index.index_oneMethod (by decide) (by cbv) (by decide) rfl

/-- Asks where the result of the call goes. -/
def sourcePattern : ForwardPattern := { owner := "LSource;", method := "make" }

/-- The seed is the call, with the line that picks up its result. -/
def passResultSeed : ForwardSeed where
  line := ⟨⟨0, 0⟩, 0, ⟨1, "invoke-static", .invoke [] ⟨"LSource;", "make", [], "LKey;"⟩, ""⟩, 0, 0⟩
  holder := ⟨⟨0, 0⟩, 1, ⟨2, "move-result-object", .moveResult "v0", ""⟩, 0, 1⟩
  register := "v0"

/-- Where the first line is the only call of that name, and the second one picks up its result, this is the one
seed. -/
theorem forwardSeeds_sourcePattern {x : Index} {g : BlockGraph.Graph} {rest : List Site}
    (prepared : x.prepared = Std.HashMap.insert {} ⟨0, 0⟩ (.built g)) (located : g.locate? 0 = some (0, 0))
    (calls : (x.callSites.lines "make").toList = [.body ⟨0, 0⟩ 0])
    (isLine : x.program.line? ⟨0, 0⟩ 0 = some passResultSeed.line.line)
    (next : (x.sites ⟨⟨0, 0⟩, 0⟩).drop 1 = passResultSeed.holder :: rest) :
    forwardSeeds x sourcePattern = [passResultSeed] := by
  have reference : x.callee? (.body ⟨0, 0⟩ 0) = some ⟨"LSource;", "make", [], "LKey;"⟩ := by
    simp only [Index.callee?, isLine]
    rfl
  have called : x.callSitesMatching "LSource;" "make" "" = [.body ⟨0, 0⟩ 0] := by
    simp only [Index.callSitesMatching, calls, List.filter_eq_self, List.mem_singleton, forall_eq, reference]
    decide
  have sites : x.sitesOf [.body ⟨0, 0⟩ 0] = [passResultSeed.line] := by
    simp only [Index.sitesOf, List.filterMap_cons, Index.site?_of_prepared prepared located isLine]
    rfl
  have picked : pickUp? x passResultSeed.line = some (passResultSeed.holder, "v0") := by
    have after : x.sitesAfter passResultSeed.line = passResultSeed.holder :: rest := next
    simp only [pickUp?, Index.nextExecutable?, after]
    rfl
  simp only [forwardSeeds, sourcePattern, ne_eq, not_true_eq_false, if_false, called, sites]
  rw [if_pos (by decide), List.filterMap_cons, picked]
  rfl

theorem forwardSeeds_passResult : forwardSeeds passResultIndex sourcePattern = [passResultSeed] := by
  have calls : (passResultIndex.callSites.lines "make").toList = [LineId.body ⟨0, 0⟩ 0] :=
    (Index.lines_single "make").trans (by decide)
  have located : passResultGraph.locate? 0 = some (0, 0) := by
    simp [BlockGraph.Graph.locate?, passResultGraph, List.findIdx?_cons]
  exact forwardSeeds_sourcePattern rfl located calls rfl (by rw [Index.sites_of_prepared rfl rfl]; rfl)

/-- Options under which a few items are searched, and no call copies data. -/
def noRedirects : Options := { fewIterations with redirects := [] }

/-- The sink is found through the copy. -/
theorem passResult_delivered :
    0 ≤ noRedirects.maxFuzzy ∧
      ∃ result, (forward (Index.ofProgram passResultProgram []).index noRedirects sourcePattern).searches[0]? =
        some result ∧ result.outcome = .completed ∧ ∃ c ∈ result.constants, c.line = .body ⟨0, 0⟩ 3 := by
  have ended : (⟨forwardContext passResultIndex noRedirects 0, passResultSeed.line.id,
      seedForward passResultSeed⟩ : Search).run.1 = .ok () := by cbv
  have completed : (runSearch (forwardContext passResultIndex noRedirects 0) sourcePattern.text
      (seedForward passResultSeed)).result.outcome = .completed := by
    rw [result_runSearch _ _ passResultSeed.line.id]
    simp only [Search.result, Search.outcome, ended]
  have found : (forward (Index.ofProgram passResultProgram []).index noRedirects sourcePattern).searches[0]? =
      some (runSearch (forwardContext passResultIndex noRedirects 0) sourcePattern.text
        (seedForward passResultSeed)).result := by
    rw [index_passResultProgram, getElem?_searches_forward, forwardSeeds_passResult]
    rfl
  obtain ⟨seed, isSeed, complete⟩ :=
    forward_keeps_deliveries passResultProgram [] noRedirects sourcePattern (by decide) 0 _ found completed
  refine ⟨by decide, _, found, completed, ?_⟩
  rw [index_passResultProgram] at isSeed complete
  rw [forwardSeeds_passResult] at isSeed
  cases isSeed
  have sites : passResultIndex.sites ⟨⟨0, 0⟩, 0⟩ = passResult.lines.toList.zipIdx.map fun entry =>
      ⟨⟨0, 0⟩, entry.2, entry.1, 0, entry.2⟩ := (Index.sites_of_prepared rfl rfl).trans rfl
  have copied : ForwardPath passResultIndex ⟨"v0", ⟨⟨0, 0⟩, 0⟩, 2⟩ ⟨"v1", ⟨⟨0, 0⟩, 0⟩, 3⟩ :=
    .single (.through (n := 2) (by rw [sites]; rfl) (by decide) (by decide) rfl)
  have foreign : passResultIndex.resolve? ⟨"LSink;", "take", ["LKey;"], "V"⟩ = none := by cbv
  exact complete _ _ copied (.intro (n := 3) (by rw [sites]; rfl) rfl (List.mem_singleton.mpr rfl) foreign rfl)

end SmaliTrace.Slice
