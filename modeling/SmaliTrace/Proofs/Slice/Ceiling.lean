import SmaliTrace.Proofs.Slice.Mirror

/-!
The fuzzy ceiling. A search under another ceiling loses no result if every item that both searches perform
leaves it as much room as before. Raising the ceiling alone is not enough: an item is performed once, for the
first request that is admitted, and under a higher ceiling that may be one of a higher level.
-/
namespace SmaliTrace.Slice
open SmaliTrace.Smali SmaliTrace.ClassFile

/-- A request of the level and offset passes the check under the ceiling. -/
def Admits (ceiling level offset : Int) : Prop := Number.wrap (level + offset) ≤ ceiling

instance (ceiling level offset : Int) : Decidable (Admits ceiling level offset) :=
  inferInstanceAs (Decidable (_ ≤ _))

theorem tooFuzzy_eq_false_iff {w : Worklist} {level offset : Int} :
    w.tooFuzzy level offset = false ↔ Admits w.maxFuzzy level offset := by
  simp [Worklist.tooFuzzy, Admits]

/-- The keys after a request: that of the request is among them if it is admitted. -/
theorem mem_done_accept {w : Worklist} {key other : ItemKey} {level offset : Int} {o : Origin}
    {enqueue : Worklist → Worklist} (queues : Worklist.Queues key level offset o enqueue) :
    other ∈ (w.accept key level offset o enqueue).1.done ↔
      other ∈ w.done ∨ (Admits w.maxFuzzy level offset ∧ other = key) := by
  rw [← tooFuzzy_eq_false_iff]
  rcases w.accept_cases key level offset o enqueue with
    ⟨exceeds, refused⟩ | ⟨fits, i, found, linked⟩ | ⟨fits, absent, queued⟩
  · simp [refused, exceeds]
  · have member : key ∈ w.done := by
      rw [Std.HashMap.mem_iff_isSome_getElem?, found]
      rfl
    rw [linked, (Worklist.relinked_inherit ..).done, (Worklist.relinked_duplicate ..).done]
    grind
  · rw [queued, queues.done, (Worklist.relinked_opened ..).done]
    simp only [Std.HashMap.mem_insert, beq_iff_eq, fits, true_and, or_comm]
    exact or_congr_left eq_comm

/-! ### One item under two ceilings -/

/-- The room that an item leaves for its requests under the one ceiling, its counterpart leaves under the other:
one level deeper, and for the results of the program's own methods. -/
structure Room (n n' : Int) (r r' : RegisterSearch) : Prop where
  deeper : Admits n (r.fuzzy + 1) r.offset → Admits n' (r'.fuzzy + 1) r'.offset
  results : Admits n r.fuzzy (max r.offset (Number.wrap (n - 3))) →
    Admits n' r'.fuzzy (max r'.offset (Number.wrap (n' - 3)))

instance (n n' : Int) (r r' : RegisterSearch) : Decidable (Room n n' r r') :=
  decidable_of_iff ((Admits n (r.fuzzy + 1) r.offset → Admits n' (r'.fuzzy + 1) r'.offset) ∧
      (Admits n r.fuzzy (max r.offset (Number.wrap (n - 3))) →
        Admits n' r'.fuzzy (max r'.offset (Number.wrap (n' - 3)))))
    ⟨fun both => ⟨both.1, both.2⟩, fun room => ⟨room.deeper, room.results⟩⟩

/-- What the first search newly asks for and finds, the second has asked for and found, a read of the field that
its own item started from apart. -/
structure Follows (r r' : RegisterSearch) (before after : State × State) : Prop where
  maxFuzzy : after.1.work.maxFuzzy = before.1.work.maxFuzzy
  gains : Gains before.2 after.2
  keys : ∀ key, key ∈ after.1.work.done → key ∈ before.1.work.done ∨ key ∈ after.2.work.done ∨
    (key = .content .field r'.field ∧ r'.field ≠ "" ∧ r'.field ≠ r.field)
  constants : ∀ line, after.1.HasConstant line → before.1.HasConstant line ∨ after.2.HasConstant line

theorem ContentSearch.name_ne_empty (q : ContentSearch) : q.name ≠ "" := by
  intro empty
  have := congrArg String.length empty
  simp [ContentSearch.name] at this

variable {x : Context} {n : Int} {r r' : RegisterSearch} {before after : State × State}

theorem follows_of_twin (twin : Twin x n r r' before after) (room : Room x.options.maxFuzzy n r r')
    (fits : Admits n r'.fuzzy r'.offset) (ceiling : before.1.work.maxFuzzy = x.options.maxFuzzy)
    (ceiling' : before.2.work.maxFuzzy = n) : Follows r r' before after := by
  have maxFuzzy : ∀ {σ τ : State}, Edit σ τ → τ.work.maxFuzzy = σ.work.maxFuzzy := fun edit => edit.grows.maxFuzzy
  cases twin with
  | @register σ σ' q q' key level offset =>
    refine ⟨maxFuzzy (.register σ q), (Edit.register σ' q').enlists.toGains, fun other member => ?_, fun _ => .inl⟩
    rcases (mem_done_accept (Worklist.queues_register q)).mp member with old | ⟨admitted, rfl⟩
    · exact .inl old
    · refine .inr (.inl ((mem_done_accept (Worklist.queues_register q')).mpr (.inr ⟨?_, key.symm⟩)))
      dsimp only at ceiling ceiling'
      rw [ceiling, offset.1] at admitted
      rw [ceiling', offset.2]
      rcases level with ⟨here, here'⟩ | ⟨deeper, deeper'⟩
      · rwa [here']
      · rw [deeper] at admitted
        rw [deeper']
        exact room.deeper admitted
  | @content σ σ' kind q q' key level offset =>
    refine ⟨maxFuzzy (.content σ kind q), (Edit.content σ' kind q').enlists.toGains, fun other member => ?_,
      fun _ => .inl⟩
    rcases (mem_done_accept (Worklist.queues_content kind q)).mp member with old | ⟨admitted, rfl⟩
    · exact .inl old
    · refine .inr (.inl ((mem_done_accept (Worklist.queues_content kind q')).mpr (.inr ⟨?_, key.symm⟩)))
      dsimp only at ceiling ceiling'
      rw [ceiling, level.1] at admitted
      rw [ceiling', level.2]
      rcases offset with ⟨-, offset'⟩ | ⟨offset, offset'⟩
      · rwa [offset']
      · rw [offset] at admitted
        rw [offset']
        exact room.results admitted
  | @skipped σ σ' q level own other =>
    refine ⟨maxFuzzy (.content σ .field q), .refl σ', fun key member => ?_, fun _ => .inl⟩
    rcases (mem_done_accept (Worklist.queues_content .field q)).mp member with old | ⟨_, rfl⟩
    · exact .inl old
    · exact .inr (.inr ⟨congrArg _ own, own ▸ q.name_ne_empty, own ▸ other⟩)
  | @kept σ σ' k k' line level =>
    refine ⟨rfl, gains_keep σ' k', fun _ => .inl, fun place found => ?_⟩
    rcases hasConstant_keep.mp found with old | rfl
    · exact .inl old
    · exact .inr (hasConstant_keep.mpr (.inr line.symm))
  | @quiet σ τ σ' quiet =>
    refine ⟨quiet.maxFuzzy, .refl σ', fun key member => .inl ?_, fun line found => .inl ?_⟩
    · rwa [quiet.done] at member
    · rwa [State.HasConstant, quiet.constants] at found
  | alone σ edit => exact ⟨rfl, edit.enlists.toGains, fun _ => .inl, fun _ => .inl⟩

theorem follows_of_twins (twins : Twins x n r r' before after) (room : Room x.options.maxFuzzy n r r')
    (fits : Admits n r'.fuzzy r'.offset) (ceiling : before.1.work.maxFuzzy = x.options.maxFuzzy)
    (ceiling' : before.2.work.maxFuzzy = n) : Follows r r' before after := by
  induction twins with
  | refl => exact ⟨rfl, .refl _, fun _ => .inl, fun _ => .inl⟩
  | tail _ twin ih =>
    have step := follows_of_twin twin room fits (ih.maxFuzzy.trans ceiling) (ih.gains.maxFuzzy.trans ceiling')
    refine ⟨step.maxFuzzy.trans ih.maxFuzzy, ih.gains.trans step.gains, fun key member => ?_, fun line found => ?_⟩
    · rcases step.keys key member with middle | new
      · rcases ih.keys key middle with old | new | own
        · exact .inl old
        · exact .inr (.inl (step.gains.done key new))
        · exact .inr (.inr own)
      · exact .inr new
    · rcases step.constants line found with middle | new
      · exact (ih.constants line middle).imp_right step.gains.hasConstant
      · exact .inr new

/-! ### Whole searches -/

/-- The second search can do in its item what the first does in its own: the items are the same work, there is as
much room, and what the second item passes over as its own field was no field, was passed over by the first, or
is searched for anyway. -/
structure Supports (x : Context) (n' : Int) (items' : List Item) (item item' : Item) : Prop where
  same : SameItem x item item'
  room : Room x.options.maxFuzzy n' item.terms item'.terms
  field : item'.terms.field = "" ∨ item'.terms.field = item.terms.field ∨
    ∃ other ∈ items', other.key = .content .field item'.terms.field

instance (x : Context) (n' : Int) (items' : List Item) (item item' : Item) :
    Decidable (Supports x n' items' item item') :=
  decidable_of_iff (SameItem x item item' ∧ Room x.options.maxFuzzy n' item.terms item'.terms ∧
      (item'.terms.field = "" ∨ item'.terms.field = item.terms.field ∨
        ∃ other ∈ items', other.key = .content .field item'.terms.field))
    ⟨fun ⟨same, room, field⟩ => ⟨same, room, field⟩, fun s => ⟨s.same, s.room, s.field⟩⟩

/-- What the first search has asked for and found so far, the second has in the end. -/
structure Covered (x : Context) (τ' σ : State) : Prop where
  maxFuzzy : σ.work.maxFuzzy = x.options.maxFuzzy
  ready : Ready σ
  keys : ∀ key, key ∈ σ.work.done → key ∈ τ'.work.done
  constants : ∀ line, σ.HasConstant line → τ'.HasConstant line

/-- An item of the first search asks for and finds nothing that the second search misses. -/
theorem Covered.performNext {items' : List Item} {item : Item} {σ τ τ' : State} (backward : x.forward = false)
    (covered : Covered x τ' σ) (drained : Drained (x.withCeiling n) items' τ')
    (supports : ∀ item' ∈ items', item'.key = item.key → Supports x n items' item item')
    (next : σ.work.next? = some item) (ran : exec (performNext x) σ = (.ok (), τ)) : Covered x τ' τ := by
  obtain ⟨ρ, ρ', takes, performs, quiet⟩ := performNext_cases ran next
  -- the other search has performed an item of the same key
  obtain ⟨keyed, _⟩ := covered.ready item takes.waited
  obtain ⟨item', inside', sameKey⟩ := drained.asked item.key (covered.keys _ keyed)
  obtain ⟨π, π', performs', ceiling', gains', _, fits⟩ := drained.ran item' inside'
  have support := supports item' inside' sameKey
  have terms : item'.level = item'.terms.fuzzy ∧ item'.offset = item'.terms.offset := by
    cases item' <;> exact ⟨rfl, rfl⟩
  rw [tooFuzzy_eq_false_iff, ceiling', terms.1, terms.2] at fits
  have twins := ((mirrors_perform backward support.same).run performs performs').2
  have follows := follows_of_twins twins support.room fits (takes.maxFuzzy.trans covered.maxFuzzy) ceiling'
  refine ⟨?_, covered.ready.performNext next ran, fun key member => ?_, fun line found => ?_⟩
  · rw [quiet.maxFuzzy, follows.maxFuzzy, takes.maxFuzzy, covered.maxFuzzy]
  · rw [quiet.done] at member
    rcases follows.keys key member with old | new | ⟨rfl, named, other⟩
    · exact covered.keys key (by rwa [takes.done] at old)
    · exact gains'.done key new
    · obtain ⟨other, isItem, same⟩ := (support.field.resolve_left named).resolve_left other
      obtain ⟨_, _, _, _, _, asked, _⟩ := drained.ran other isItem
      exact same ▸ asked
  · rw [State.HasConstant, quiet.constants] at found
    rcases follows.constants line found with old | new
    · exact covered.constants line (by rwa [State.HasConstant, takes.constants] at old)
    · exact gains'.hasConstant new

/-- A seed asks for its register and nothing else, and finds no constant. -/
theorem done_of_seedBackward {p : BackwardPattern} {line : LineId} {σ : State}
    (ran : exec (seedBackward x p line) (startState x) = (.ok (), σ)) :
    (∃ s register, x.index.site? line = some s ∧ seedRegister? p s = some register ∧
      ∀ key, key ∈ σ.work.done → key = .register register s.blockId ((s.position : Int) - 1)) ∧
    ∀ line, ¬ σ.HasConstant line := by
  obtain ⟨s, register, isSite, tracked, id, rfl⟩ := seedBackward_cases ran
  refine ⟨⟨s, register, isSite, tracked, fun key member => ?_⟩, fun line found => ?_⟩
  · rcases (mem_done_accept (Worklist.queues_register _)).mp member with old | ⟨_, same⟩
    · simp [startState, Worklist.addNode] at old
    · exact same
  · obtain ⟨k, inside, _⟩ := found
    simp [startState] at inside

/-- A completed search under another ceiling finds a constant on every line where the search found one, if each
item that both perform leaves the other search as much room: the items are the same work, what the item of the
one may ask for, that of the other may too, and the field that the other passes over is no loss. -/
theorem backward_keeps_results (index : Index) (options : Options) (n : Int) (bounded : 0 ≤ n) (p : BackwardPattern)
    (i : Nat) (seed : LineId) (isSeed : (backwardSeeds index p)[i]? = some seed) (result result' : SearchResult)
    (found : (backward index options p).searches[i]? = some result) (completed : result.outcome = .completed)
    (found' : (backward index { options with maxFuzzy := n } p).searches[i]? = some result')
    (completed' : result'.outcome = .completed)
    (supports : ∀ item ∈ backwardItems index options p i seed,
      ∀ item' ∈ backwardItems index { options with maxFuzzy := n } p i seed, item'.key = item.key →
        Supports (backwardContext index options p i) n
          (backwardItems index { options with maxFuzzy := n } p i seed) item item') :
    ∀ c ∈ result.constants, ∃ c' ∈ result'.constants, c'.line = c.line := by
  obtain ⟨_, σ, isSeed₁, seeded, ready, drained, items, -, constants⟩ := drained_of_completed found completed
  obtain ⟨_, σ', isSeed₂, seeded', ready', drained', items', ran', constants'⟩ :=
    drained_of_completed found' completed'
  cases isSeed.symm.trans isSeed₁
  cases isSeed.symm.trans isSeed₂
  -- both searches start with the same key, and each item of the first keeps to what the second has
  obtain ⟨⟨s, register, isSite, tracked, only⟩, none⟩ := done_of_seedBackward seeded
  obtain ⟨s', register', isSite', tracked', asked⟩ := asked_of_seedBackward bounded seeded'
  cases isSite.symm.trans isSite'
  cases tracked.symm.trans tracked'
  have start : Covered (backwardContext index options p i)
      (backwardState index { options with maxFuzzy := n } p i seed) σ := by
    refine ⟨((develops_seedBackward ..).grows seeded).maxFuzzy, ready, fun key member => ?_, fun line found => ?_⟩
    · rw [only key member]
      exact (gains_of_drain drained').done _ asked
    · exact absurd found (none line)
  rw [items] at supports
  have covered := (drain_invariant drained start fun item inside ρ ρ' next ran covered =>
    covered.performNext rfl ran' (supports item inside) next ran).1
  intro c inside
  obtain ⟨c', inside', same⟩ := covered.constants c.line ⟨c, (constants c).mp inside, rfl⟩
  exact ⟨c', (constants' c').mpr inside', same⟩

/-! ### A long way round -/

/-- A body that passes on what a call made of a class constant: either after two more calls, or as it is but by
a longer way. -/
def twoWays : Method where
  owner := "LMain;"
  name := "run"
  params := ["I"]
  result := "V"
  flags := [.static]
  lines := #[
    ⟨1, "const-class", .constClass "v4" "LKey;", ""⟩,
    ⟨2, "invoke-static", .invoke ["v4"] ⟨"L;", "f", ["LKey;"], "LKey;"⟩, ""⟩,
    ⟨3, "move-result-object", .moveResult "v3", ""⟩,
    ⟨4, "if-eqz", .ifZero "p0" "far", ""⟩,
    ⟨5, "invoke-static", .invoke ["v3"] ⟨"L;", "f", ["LKey;"], "LKey;"⟩, ""⟩,
    ⟨6, "move-result-object", .moveResult "v2", ""⟩,
    ⟨7, "invoke-static", .invoke ["v2"] ⟨"L;", "f", ["LKey;"], "LKey;"⟩, ""⟩,
    ⟨8, "move-result-object", .moveResult "v1", ""⟩,
    ⟨9, "goto", .goto "sink", ""⟩,
    ⟨10, "", .label "far", ""⟩,
    ⟨11, "move-object", .move "v1" "v3", ""⟩,
    ⟨12, "goto", .goto "second", ""⟩,
    ⟨13, "", .label "second", ""⟩,
    ⟨14, "goto", .goto "third", ""⟩,
    ⟨15, "", .label "third", ""⟩,
    ⟨16, "goto", .goto "sink", ""⟩,
    ⟨17, "", .label "sink", ""⟩,
    ⟨18, "invoke-static", .invoke ["v1"] ⟨"LSink;", "take", ["LKey;"], "V"⟩, ""⟩,
    ⟨19, "return-void", .returnVoid, ""⟩]

def twoWaysProgram : Program := Index.oneMethod twoWays

def twoWaysGraph : BlockGraph.Graph where
  blocks := #[
    { lines := [0, 1, 2, 3], label := some 0, preds := [], succs := [1, 2], returns := false, throws := false,
      jumps := false, dead := false, isTry := false, isHandler := false },
    { lines := [4, 5, 6, 7, 8], label := some 1, preds := [0], succs := [5], returns := false, throws := false,
      jumps := true, dead := false, isTry := false, isHandler := false },
    { lines := [9, 10, 11], label := some 3, preds := [0], succs := [3], returns := false, throws := false,
      jumps := true, dead := false, isTry := false, isHandler := false },
    { lines := [12, 13], label := some 4, preds := [2], succs := [4], returns := false, throws := false,
      jumps := true, dead := false, isTry := false, isHandler := false },
    { lines := [14, 15], label := some 5, preds := [3], succs := [5], returns := false, throws := false,
      jumps := true, dead := false, isTry := false, isHandler := false },
    { lines := [16, 17, 18], label := some 2, preds := [1, 4], succs := [], returns := true, throws := false,
      jumps := false, dead := false, isTry := false, isHandler := false }]

def twoWaysIndex : Index := .single twoWays twoWaysGraph [1, 4, 6, 17]

theorem index_twoWaysProgram : (Index.ofProgram twoWaysProgram []).index = twoWaysIndex :=
  Index.index_oneMethod (by decide) (by cbv) (by decide) (by cbv)

/-- Options that leave no argument of a library method out. -/
def ceilingOf (n : Int) : Options where
  maxFuzzy := n
  maxCompleted := 16
  maxIterations := 16
  arrayDepth := 1
  trackForwardReturns := false
  whitelist := []
  redirects := []

/-- The run of the search from the sink of that body. -/
def twoWaysRun (n : Int) : Except Fault Unit × State :=
  exec (do
    seedBackward (backwardContext twoWaysIndex (ceilingOf n) sinkPattern 0) sinkPattern (.body ⟨0, 0⟩ 17)
    drain (backwardContext twoWaysIndex (ceilingOf n) sinkPattern 0) (ceilingOf n).maxIterations.toNat)
    (startState (backwardContext twoWaysIndex (ceilingOf n) sinkPattern 0))

theorem seeds_twoWaysIndex : (backwardSeeds twoWaysIndex sinkPattern)[0]? = some (LineId.body ⟨0, 0⟩ 17) := by
  have calls : (twoWaysIndex.callSites.lines "take").toList = [LineId.body ⟨0, 0⟩ 17] :=
    (Index.lines_single "take").trans (by decide)
  rw [backwardSeeds_sinkPattern calls (by simpa using ⟨_, rfl, by decide⟩)]
  rfl

theorem exists_completed_twoWays {n : Int} {lines : List LineId}
    (ran : ((twoWaysRun n).1, (twoWaysRun n).2.constants.toList.map Constant.line) = (.ok (), lines)) :
    ∃ result : SearchResult,
      (backward (Index.ofProgram twoWaysProgram []).index (ceilingOf n) sinkPattern).searches[0]? = some result ∧
      result.outcome = .completed ∧ ∀ line, (∃ c ∈ result.constants, c.line = line) ↔ line ∈ lines := by
  obtain ⟨ended, constants⟩ := Prod.mk.inj ran
  obtain ⟨result, found, completed, same⟩ := exists_completed_of_ran seeds_twoWaysIndex ended
  rw [index_twoWaysProgram]
  refine ⟨result, found, completed, fun line => ?_⟩
  rw [← constants, List.mem_map]
  refine exists_congr fun c => and_congr_left fun _ => ?_
  rw [same, Array.mem_toList_iff]
  rfl

/-- The item of a register that is not read for a field. -/
def itemAt (register : Register) (block : Nat) (index fuzzy origin : Int) : Item :=
  .register { register := register, field := "", block := ⟨⟨0, 0⟩, block⟩, index := index, fuzzy := fuzzy, offset := 0,
              origin := some origin, originRegister := register }

/-- What the search under the ceiling 1 performs. -/
def itemsOne : List Item :=
  [itemAt "v1" 5 0 0 0, itemAt "v1" 1 4 0 0, itemAt "v1" 4 1 0 0, itemAt "v2" 1 1 1 1, itemAt "v1" 3 1 0 0,
    itemAt "v1" 2 2 0 0, itemAt "v3" 0 3 0 3, itemAt "v4" 0 0 1 4]

/-- What the search under the ceiling 3 performs: the last two items are two levels deeper. -/
def itemsThree : List Item :=
  [itemAt "v1" 5 0 0 0, itemAt "v1" 1 4 0 0, itemAt "v1" 4 1 0 0, itemAt "v2" 1 1 1 1, itemAt "v1" 3 1 0 0,
    itemAt "v3" 1 (-1) 2 2, itemAt "v1" 2 2 0 0, itemAt "v3" 0 3 2 2, itemAt "v4" 0 0 3 4]

/-- The lines that the searches under the ceilings 1, 2 and 3 report, and what they perform. They are evaluated together,
as they have most of their steps in common. -/
theorem twoWaysRuns_eq :
    ((twoWaysRun 1).1, (twoWaysRun 1).2.constants.toList.map Constant.line) =
      (.ok (), [.body ⟨0, 0⟩ 6, .body ⟨0, 0⟩ 4, .body ⟨0, 0⟩ 1, .body ⟨0, 0⟩ 0]) ∧
    ((twoWaysRun 2).1, (twoWaysRun 2).2.constants.toList.map Constant.line) =
      (.ok (), [.body ⟨0, 0⟩ 6, .body ⟨0, 0⟩ 4, .body ⟨0, 0⟩ 1]) ∧
    ((twoWaysRun 3).1, (twoWaysRun 3).2.constants.toList.map Constant.line) =
      (.ok (), [.body ⟨0, 0⟩ 6, .body ⟨0, 0⟩ 4, .body ⟨0, 0⟩ 1, .body ⟨0, 0⟩ 0]) ∧
    backwardItems twoWaysIndex (ceilingOf 1) sinkPattern 0 (.body ⟨0, 0⟩ 17) = itemsOne ∧
    backwardItems twoWaysIndex (ceilingOf 3) sinkPattern 0 (.body ⟨0, 0⟩ 17) = itemsThree := by
  cbv
  exact ⟨rfl, rfl⟩

/-- Under the ceiling 1 the argument of the first call is followed, as the two later calls are too many for it.
Under the ceiling 2 they are not, and they are the shorter way: the argument is now one level too deep. -/
theorem twoWays_lost :
    ∃ result result' : SearchResult,
      (backward (Index.ofProgram twoWaysProgram []).index (ceilingOf 1) sinkPattern).searches[0]? = some result ∧
      result.outcome = .completed ∧
      (backward (Index.ofProgram twoWaysProgram []).index { ceilingOf 1 with maxFuzzy := 2 } sinkPattern).searches[0]? =
        some result' ∧ result'.outcome = .completed ∧
      ∃ c ∈ result.constants, ¬ ∃ c' ∈ result'.constants, c'.line = c.line := by
  obtain ⟨one, two, -⟩ := twoWaysRuns_eq
  obtain ⟨result, found, completed, lines⟩ := exists_completed_twoWays one
  obtain ⟨result', found', completed', lines'⟩ := exists_completed_twoWays two
  obtain ⟨c, inside, isLoad⟩ := (lines (.body ⟨0, 0⟩ 0)).mpr (by simp)
  refine ⟨result, result', found, completed, found', completed', c, inside, fun kept => ?_⟩
  rw [isLoad, lines'] at kept
  simp at kept

/-- Under the ceiling 3 there is room for the argument on either way. -/
theorem twoWays_kept :
    ∃ result result' : SearchResult,
      (backward (Index.ofProgram twoWaysProgram []).index (ceilingOf 1) sinkPattern).searches[0]? = some result ∧
      result.outcome = .completed ∧
      (backward (Index.ofProgram twoWaysProgram []).index { ceilingOf 1 with maxFuzzy := 3 } sinkPattern).searches[0]? =
        some result' ∧ result'.outcome = .completed ∧
      (∃ c ∈ result.constants, c.line = .body ⟨0, 0⟩ 0) ∧
      ∀ c ∈ result.constants, ∃ c' ∈ result'.constants, c'.line = c.line := by
  obtain ⟨one, -, three, itemsOne_eq, itemsThree_eq⟩ := twoWaysRuns_eq
  obtain ⟨result, found, completed, lines⟩ := exists_completed_twoWays one
  obtain ⟨result', found', completed', _⟩ := exists_completed_twoWays three
  refine ⟨result, result', found, completed, found', completed', (lines _).mpr (by simp), ?_⟩
  rw [index_twoWaysProgram] at found found'
  refine backward_keeps_results twoWaysIndex (ceilingOf 1) 3 (by decide) sinkPattern 0 (.body ⟨0, 0⟩ 17)
    seeds_twoWaysIndex result result' found completed found' completed' ?_
  rw [itemsOne_eq, show { ceilingOf 1 with maxFuzzy := 3 } = ceilingOf 3 from rfl, itemsThree_eq]
  decide +kernel

end SmaliTrace.Slice
