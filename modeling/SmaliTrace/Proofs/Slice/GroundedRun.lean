import SmaliTrace.Proofs.Slice.GroundedActions
import SmaliTrace.Proofs.Slice.Records

/-!
Whole searches are grounded. A search adds its seed to the empty slice, and from then on every item that waits
continues from a node of the slice; so what grounded edits keep holds in the end, however the search ends.
-/
namespace SmaliTrace.Slice
open SmaliTrace.Smali SmaliTrace.ClassFile

/-! ### What linking duplicates leaves alone -/

namespace Worklist

variable {w w' : Worklist}

/-- The links of a worklist were added to, and nothing else changed. -/
structure Rewired (w w' : Worklist) : Prop extends Relinked w w' where
  completed : w'.completed = w.completed
  preds : ∀ id p, w.graph.Pred id p → w'.graph.Pred id p

theorem Rewired.refl (w : Worklist) : Rewired w w := ⟨.refl w, rfl, fun _ _ pred => pred⟩

theorem Rewired.trans {w₁ w₂ w₃ : Worklist} (first : Rewired w₁ w₂) (last : Rewired w₂ w₃) : Rewired w₁ w₃ where
  toRelinked := first.toRelinked.trans last.toRelinked
  completed := last.completed.trans first.completed
  preds id p pred := last.preds id p (first.preds id p pred)

theorem Rewired.waiting (rewired : Rewired w w') : w'.waiting = w.waiting := by
  simp only [Worklist.waiting, rewired.registers, rewired.fields, rewired.arrays, rewired.results]

theorem pred_serve {records : Array Record} {g : SliceGraph} {o : Origin} {stack : List Nat} {id p : Int}
    (pred : g.Pred id p) : (serve records g o stack).2.Pred id p := by
  induction records, g, stack using serve.induct o with
  | case1 => rwa [serve]
  | case2 records g i stack bound idle ih =>
    rw [serve, dif_pos bound, dif_pos idle]
    exact ih (pred_foldl_produced.mpr (.inl pred))
  | case3 records g i stack bound busy ih =>
    rw [serve, dif_pos bound, dif_neg busy]
    exact ih pred
  | case4 records g i stack beyond ih =>
    rw [serve, dif_neg beyond]
    exact ih pred

theorem rewired_duplicate (w : Worklist) (i : Nat) (o : Origin) : Rewired w (w.duplicate i o) :=
  ⟨relinked_duplicate w i o, rfl, fun _ _ => pred_serve⟩

theorem rewired_foldl_duplicate (i : Nat) (origins : List Origin) (w : Worklist) :
    Rewired w (origins.foldl (fun w p => w.duplicate i p) w) := by
  induction origins generalizing w with
  | nil => exact .refl w
  | cons o origins ih => exact (rewired_duplicate w i o).trans (ih _)

theorem rewired_inherit (w : Worklist) (i : Nat) (o : Origin) : Rewired w (w.inherit i o) := by
  rcases w.inherit_cases i o with same | ⟨c, r, _, _, _, grown⟩
  · rw [same]
    exact .refl w
  · rw [grown]
    have adopted : Rewired w (w.adopt c i) := ⟨relinked_adopt w c i, rfl, fun _ _ pred => pred⟩
    exact adopted.trans (rewired_foldl_duplicate ..)

theorem rewired_produce (w : Worklist) (node : NodeId) (key : EdgeKey) : Rewired w (w.produce node key) := by
  refine ⟨relinked_produce w node key, ?_, fun id p pred => ?_⟩
  · unfold produce
    split
    · rfl
    · split <;> rfl
  · unfold produce
    split
    · exact pred
    · split
      · exact pred
      · exact pred_foldl_pending.mpr (.inl pred)

/-- The item waits, under a key that is new. -/
structure Admitted (item : Item) (w w' : Worklist) : Prop where
  fresh : item.key ∉ w.done
  done : ∀ key, key ∈ w'.done ↔ key = item.key ∨ key ∈ w.done
  waiting : w'.waiting.Perm (item :: w.waiting)

/-- A request keeps the lines, the links and the count; either nothing waits that did not wait before, or its
item is admitted. -/
structure Requests (item : Item) (w w' : Worklist) : Prop where
  lines : w'.graph.lines = w.graph.lines
  preds : ∀ id p, w.graph.Pred id p → w'.graph.Pred id p
  completed : w'.completed = w.completed
  admits : (w'.waiting = w.waiting ∧ w'.done = w.done) ∨ Admitted item w w'

theorem Rewired.requests (rewired : Rewired w w') (item : Item) : Requests item w w' :=
  ⟨rewired.lines, rewired.preds, rewired.completed, .inl ⟨rewired.waiting, rewired.done⟩⟩

theorem requests_accept (w : Worklist) (item : Item) {fuzzy offset : Int} {o : Origin}
    {enqueue : Worklist → Worklist} (queues : Queues item.key fuzzy offset o enqueue)
    (completed : ∀ w, (enqueue w).completed = w.completed)
    (waiting : ∀ w, (enqueue w).waiting.Perm (item :: w.waiting)) :
    Requests item w (w.accept item.key fuzzy offset o enqueue).1 := by
  rcases w.accept_cases item.key fuzzy offset o enqueue with
    ⟨_, refused⟩ | ⟨_, i, _, linked⟩ | ⟨_, absent, queued⟩
  · rw [refused]
    exact ⟨rfl, fun _ _ pred => pred, rfl, .inl ⟨rfl, rfl⟩⟩
  · rw [linked]
    exact ((rewired_duplicate ..).trans (rewired_inherit ..)).requests item
  · rw [queued]
    have opened : Rewired { w with
        records := w.records.push { origin := o }
        done := w.done.insert item.key w.records.size } (w.opened item.key o) := rewired_inherit ..
    refine ⟨?_, fun id p pred => ?_, (completed _).trans opened.completed, .inr ⟨?_, fun key => ?_, ?_⟩⟩
    · rw [queues.graph, opened.lines]
    · rw [queues.graph]
      exact opened.preds id p pred
    · rw [Std.HashMap.mem_iff_isSome_getElem?, absent]
      simp
    · rw [queues.done, opened.done, Std.HashMap.mem_insert, beq_iff_eq, eq_comm (a := item.key)]
    · exact opened.waiting ▸ waiting (w.opened item.key o)

/-- The items in front of an item that is put at the end of a queue, and those behind it. -/
theorem waiting_enqueued {item : Item} (before behind : List Item) (enqueued : w'.waiting = before ++ item :: behind)
    (same : w.waiting = before ++ behind) : w'.waiting.Perm (item :: w.waiting) := by
  rw [enqueued, same]
  exact List.perm_middle

theorem requests_admitRegister (w : Worklist) (r : RegisterSearch) :
    Requests (.register r) w (w.admitRegister r).1 := by
  refine requests_accept w (.register r) (queues_register r) (fun _ => rfl) fun w => ?_
  exact waiting_enqueued (w.registers.map .register) (w.fields.map (.content .field) ++
    (w.arrays.map (.content .array) ++ w.results.map (.content .result)))
    (by simp [Worklist.waiting]) rfl

theorem requests_admitContent (w : Worklist) (kind : Content) (c : ContentSearch) :
    Requests (.content kind c) w (w.admitContent kind c).1 := by
  refine requests_accept w (.content kind c) (queues_content kind c) (fun _ => by cases kind <;> rfl)
    fun w => ?_
  cases kind with
  | field =>
    exact waiting_enqueued (w.registers.map .register ++ w.fields.map (.content .field))
      (w.arrays.map (.content .array) ++ w.results.map (.content .result))
      (by simp [Worklist.waiting, enqueueContent]) (by simp [Worklist.waiting])
  | array =>
    exact waiting_enqueued
      (w.registers.map .register ++ (w.fields.map (.content .field) ++ w.arrays.map (.content .array)))
      (w.results.map (.content .result)) (by simp [Worklist.waiting, enqueueContent]) (by simp [Worklist.waiting])
  | result =>
    exact waiting_enqueued w.waiting [] (by simp [Worklist.waiting, enqueueContent]) (by simp)

end Worklist

theorem requests_ask (σ : State) (item : Item) : Worklist.Requests item σ.work (σ.ask item).work := by
  cases item with
  | register r => exact Worklist.requests_admitRegister σ.work r
  | content kind c => exact Worklist.requests_admitContent σ.work kind c

/-! ### What edits keep -/

variable {x : Context} {index : Index} {σ τ ρ : State} {item : Item}

/-- Lines stay in front, and links and constants stay. -/
structure Widens (σ τ : State) : Prop where
  lines : σ.work.graph.lines <+: τ.work.graph.lines
  preds : ∀ id p, σ.work.graph.Pred id p → τ.work.graph.Pred id p
  constants : ∀ k ∈ σ.constants, ∃ k' ∈ τ.constants, k.Lowered k'

theorem Constant.Lowered.trans {k k' k'' : Constant} (first : k.Lowered k') (last : k'.Lowered k'') :
    k.Lowered k'' := by
  refine ⟨?_, last.2.trans first.2⟩
  rw [last.1, first.1]

namespace Widens

theorem refl (σ : State) : Widens σ σ := ⟨List.prefix_rfl, fun _ _ pred => pred, fun k kept => ⟨k, kept, .refl k⟩⟩

theorem trans (first : Widens σ τ) (last : Widens τ ρ) : Widens σ ρ where
  lines := first.lines.trans last.lines
  preds id p pred := last.preds id p (first.preds id p pred)
  constants k kept := by
    obtain ⟨k', kept', lowered⟩ := first.constants k kept
    obtain ⟨k'', kept'', lowered'⟩ := last.constants k' kept'
    exact ⟨k'', kept'', lowered.trans lowered'⟩

/-- The constants stay as they are. -/
theorem of_graph (lines : σ.work.graph.lines <+: τ.work.graph.lines)
    (preds : ∀ id p, σ.work.graph.Pred id p → τ.work.graph.Pred id p) (same : τ.constants = σ.constants) :
    Widens σ τ :=
  ⟨lines, preds, fun k kept => ⟨k, same ▸ kept, .refl k⟩⟩

end Widens

theorem widens_keep (σ : State) (k : Constant) : Widens σ (σ.keep k) where
  lines := List.prefix_rfl
  preds _ _ pred := pred
  constants _ kept := exists_lowered_keep kept k

theorem GroundedEdit.widens (edit : GroundedEdit index σ τ) : Widens σ τ := by
  cases edit with
  | request item =>
    have requests := requests_ask σ item
    exact .of_graph (by rw [requests.lines]) requests.preds (by cases item <;> rfl)
  | node line pred key =>
    exact .of_graph (SliceGraph.lines_addNode ..).1 (fun _ _ old => SliceGraph.pred_addNode.mpr (.inl old)) rfl
  | constant line pred register target =>
    exact .of_graph (SliceGraph.lines_addConstant ..).1
      (fun _ _ old => SliceGraph.pred_addConstant.mpr (.inl old)) rfl
  | produced id key =>
    have rewired := Worklist.rewired_produce σ.work id key
    exact .of_graph (by rw [rewired.lines]) rewired.preds rfl
  | kept k => exact widens_keep σ k

theorem Took.widens (took : Took item σ ρ) : Widens σ ρ := by
  refine .of_graph (by rw [took.graph]) (fun _ _ pred => ?_) took.constants
  rwa [took.graph]

/-! ### Items that wait -/

/-- Every item that waits continues from a node of the slice, under a key of the program. -/
def Grounded (index : Index) (σ : State) : Prop :=
  ∀ item ∈ σ.work.waiting, Anchored σ.work.graph.lines item.origin ∧ item.key ∈ index.searchKeys

theorem GroundedEdit.grounded (edit : GroundedEdit index σ τ) (grounded : Grounded index σ) : Grounded index τ := by
  have lines := edit.widens.lines
  have same : τ.work.waiting = σ.work.waiting → Grounded index τ := by
    intro same item waits
    obtain ⟨anchored, known⟩ := grounded item (same ▸ waits)
    exact ⟨anchored.mono lines, known⟩
  cases edit with
  | request item anchored known =>
    rcases (requests_ask σ item).admits with ⟨waiting, _⟩ | admitted
    · exact same waiting
    · intro other waits
      rcases List.mem_cons.mp (admitted.waiting.subset waits) with rfl | old
      · exact ⟨anchored.mono lines, known⟩
      · obtain ⟨anchored, known⟩ := grounded other old
        exact ⟨anchored.mono lines, known⟩
  | node line pred key => exact same rfl
  | constant line pred register target => exact same rfl
  | produced id key => exact same (Worklist.rewired_produce σ.work id key).waiting
  | kept k => exact same rfl

theorem Took.grounded (took : Took item σ ρ) (grounded : Grounded index σ) : Grounded index ρ := by
  intro other waits
  rw [took.graph]
  exact grounded other (by rw [took.waiting]; exact List.mem_cons_of_mem item waits)

/-- Performing the next item makes grounded edits, and does not end with a limit. -/
theorem Grounded.perform (faithful : x.index.Faithful) (grounded : Grounded x.index σ)
    (taken : σ.take? = some (item, ρ)) :
    GroundedEdits x.index ρ (exec (item.perform x) ρ).2 ∧ Ended (fun _ _ => True) (exec (item.perform x) ρ) := by
  have took := took_of_take? taken
  obtain ⟨anchored, known⟩ := grounded item (by simp [took.waiting])
  rw [← took.graph] at anchored
  exact (item.grounds_perform faithful anchored known).run ρ List.prefix_rfl

/-- What grounded edits, taking an item and counting one keep. -/
structure Invariant (index : Index) (P : State → Prop) : Prop where
  edit : ∀ {σ τ}, GroundedEdit index σ τ → P σ → P τ
  take : ∀ {item σ ρ}, Took item σ ρ → P σ → P ρ
  complete : ∀ {σ}, P σ → P { σ with work := σ.work.complete }

namespace Invariant

variable {P : State → Prop}

theorem edits (invariant : Invariant index P) (edits : GroundedEdits index σ τ) (start : P σ) : P τ := by
  induction edits with
  | refl => exact start
  | tail _ edit ih => exact invariant.edit edit ih

theorem grounded : Invariant index (Grounded index) where
  edit edit := edit.grounded
  take took := took.grounded
  complete holds := holds

theorem widens (σ : State) : Invariant index (Widens σ) where
  edit edit before := before.trans edit.widens
  take took before := before.trans took.widens
  complete before := before.trans (.of_graph List.prefix_rfl (fun _ _ pred => pred) rfl)

/-- An invariant holds after draining, however that ends. -/
theorem drain (invariant : Invariant x.index P) (faithful : x.index.Faithful) (grounded : Grounded x.index σ)
    (start : P σ) (budget : Nat) : P (exec (drain x budget) σ).2 ∧ Grounded x.index (exec (drain x budget) σ).2 := by
  refine drain_preserves (P := fun σ => P σ ∧ Grounded x.index σ) ?_ ?_ budget ⟨start, grounded⟩
  · rintro item σ ρ taken ⟨holds, grounded⟩
    have took := took_of_take? taken
    obtain ⟨edits, _⟩ := grounded.perform faithful taken
    exact ⟨invariant.edits edits (invariant.take took holds), Invariant.grounded.edits edits (took.grounded grounded)⟩
  · rintro σ ⟨holds, grounded⟩
    exact ⟨invariant.complete holds, grounded⟩

end Invariant

/-! ### Seeds -/

/-- The slice of a search that has its seed line and nothing else. -/
def planted (x : Context) (line : LineId) (key : EdgeKey) : State :=
  { startState x with work := ((startState x).work.addNode line none key).1 }

theorem lines_planted (x : Context) (line : LineId) (key : EdgeKey) :
    (planted x line key).work.graph.lines = [line] :=
  SliceGraph.lines_addNode_eq line none key

theorem snd_planted (x : Context) (line : LineId) (key : EdgeKey) :
    ((startState x).work.addNode line none key).2 = 0 :=
  SliceGraph.snd_addNode line none key

theorem grounded_planted (x : Context) (line : LineId) (key : EdgeKey) : Grounded index (planted x line key) := by
  intro item waits
  simp [planted, startState, Worklist.waiting, Worklist.addNode] at waits

theorem seedRegister_cases (x : Context) (p : BackwardPattern) (s : Site) (σ : State) :
    (∃ fault, exec (seedRegister x p s) σ = (.error fault, σ) ∧ fault.isLimit = false) ∨
      ∃ register ∈ s.operation.registers, exec (seedRegister x p s) σ = (.ok register, σ) := by
  unfold seedRegister
  split
  · exact .inl ⟨_, rfl, rfl⟩
  · next value isReturn => exact .inr ⟨value, by simp [isReturn, Operation.registers], rfl⟩
  · split
    · next register found => exact .inr ⟨register, Instruction.argument_mem found, rfl⟩
    · exact .inl ⟨_, rfl, rfl⟩
  · exact .inl ⟨_, rfl, rfl⟩

/-- The seed fails before the search starts, or its line is in the slice and all else is grounded. -/
def Planted (x : Context) (line : LineId) (seed : SearchM Unit) : Prop :=
  (∃ fault, exec seed (startState x) = (.error fault, startState x) ∧ fault.isLimit = false) ∨
    ∃ key, GroundedEdits x.index (planted x line key) (exec seed (startState x)).2 ∧
      Ended (fun _ _ => True) (exec seed (startState x))

theorem planted_seedBackward (faithful : x.index.Faithful) (p : BackwardPattern) (line : LineId) :
    Planted x line (seedBackward x p line) := by
  unfold Planted seedBackward
  split
  · exact .inl ⟨_, rfl, rfl⟩
  · next s found =>
    have isLine := (Index.mem_sites_of_site? found).2
    have inside := faithful.mem_allSites_of_site? found
    rcases seedRegister_cases x p s (startState x) with ⟨fault, failed, noLimit⟩ | ⟨register, named, tracked⟩
    · exact .inl ⟨fault, by simp [exec_bind, failed], noLimit⟩
    · have known := known_before (Index.mem_registers_of_site inside named) inside
      simp only [exec_bind, tracked, exec_onWork, isLine, snd_planted]
      refine .inr ⟨⟨register, register⟩, ?_⟩
      exact (grounds_admitRegister ⟨0, rfl, by simp [lines_planted]⟩ known).run (planted x line ⟨register, register⟩)
        List.prefix_rfl

theorem mem_forwardSeeds (faithful : index.Faithful) {p : ForwardPattern} {seed : ForwardSeed}
    (inside : seed ∈ forwardSeeds index p) :
    seed.holder ∈ index.allSites ∧ seed.register ∈ index.registers := by
  have defining : ∀ {lines : List LineId}, seed ∈ (index.sitesOf lines).filterMap definingSeed? →
      seed.holder ∈ index.allSites ∧ seed.register ∈ index.registers := by
    intro lines inside
    obtain ⟨s, isSite, made⟩ := List.mem_filterMap.mp inside
    obtain ⟨d, defined, rfl⟩ := Option.map_eq_some_iff.mp made
    have isSite := faithful.mem_allSites_of_sitesOf isSite
    exact ⟨isSite, Index.mem_registers_of_site isSite (Operation.mem_registers_of_result? defined)⟩
  unfold forwardSeeds at inside
  split at inside
  · exact defining inside
  · split at inside
    · obtain ⟨s, _, made⟩ := List.mem_filterMap.mp inside
      obtain ⟨⟨next, d⟩, found, rfl⟩ := Option.map_eq_some_iff.mp made
      exact faithful.mem_of_pickUp? found
    · exact defining inside

/-- What a forward search does once its line is in the slice, as the node with the id. -/
def holdSeed (seed : ForwardSeed) (id : Nat) : SearchM Unit := do
  let id ←
    if seed.holder.id = seed.line.id then pure id
    else onWork (·.addNode seed.holder.id (some (id : Int)) ⟨seed.register, seed.register⟩)
  admitRegister
    { register := seed.register, block := seed.holder.blockId, index := (seed.holder.position : Int) + 1,
      origin := some (id : Int), originRegister := seed.register }

theorem exec_seedForward (x : Context) (seed : ForwardSeed) :
    exec (seedForward seed) (startState x) =
      exec (holdSeed seed 0) (planted x seed.line.id ⟨seed.register, seed.register⟩) := by
  have unfolded : seedForward seed =
    onWork (·.addNode seed.line.id none ⟨seed.register, seed.register⟩) >>= holdSeed seed := rfl
  rw [unfolded, exec_bind, exec_onWork]
  dsimp only
  rw [snd_planted]
  rfl

theorem planted_seedForward {seed : ForwardSeed} (isSite : seed.holder ∈ x.index.allSites)
    (known : seed.register ∈ x.index.registers) : Planted x seed.line.id (seedForward seed) := by
  have start : Anchored [seed.line.id] (some ((0 : Nat) : Int)) := ⟨0, rfl, by simp⟩
  have held : Grounds x.index [seed.line.id] (holdSeed seed 0) := by
    unfold holdSeed
    split
    · exact grounds_admitRegister start (known_behind known isSite)
    · refine (tracks_addNode start).bind fun later id _ found => ?_
      exact grounds_admitRegister (Stands.anchored ⟨id, rfl, found⟩) (known_behind known isSite)
  refine .inr ⟨⟨seed.register, seed.register⟩, ?_⟩
  rw [exec_seedForward]
  exact held.run _ (by rw [lines_planted])

/-- The seed of every search of a pattern is planted. -/
theorem Pattern.planted_search? (faithful : index.Faithful) {options : Options} {i : Nat} {pattern : Pattern}
    {s : Search} (found : pattern.search? index options i = some s) :
    s.context.index = index ∧ s.context.options = options ∧ Planted s.context s.line s.seed := by
  cases pattern with
  | backward p =>
    obtain ⟨line, _, rfl⟩ := Option.map_eq_some_iff.mp found
    exact ⟨rfl, rfl, planted_seedBackward faithful p line⟩
  | forward p =>
    obtain ⟨seed, isSeed, rfl⟩ := Option.map_eq_some_iff.mp found
    obtain ⟨isSite, known⟩ := mem_forwardSeeds faithful (List.mem_of_getElem? isSeed)
    exact ⟨rfl, rfl, planted_seedForward isSite known⟩

/-- An invariant that holds of the seed alone holds in the end, however the search ends. -/
theorem Planted.invariant {s : Search} (isPlanted : Planted s.context s.line s.seed)
    (faithful : s.context.index.Faithful) {P : State → Prop} (invariant : Invariant s.context.index P)
    (start : ∀ key, P (planted s.context s.line key)) :
    s.run.2 = startState s.context ∨ P s.run.2 := by
  unfold Search.run
  rw [exec_bind]
  rcases isPlanted with ⟨fault, failed, _⟩ | ⟨key, edits, _⟩
  · rw [failed]
    exact .inl rfl
  · have holds := invariant.edits edits (start key)
    have grounded := Invariant.grounded.edits edits (grounded_planted s.context s.line key)
    rcases ran : exec s.seed (startState s.context) with ⟨fault | ⟨⟩, τ⟩ <;> rw [ran] at holds grounded
    · exact .inr holds
    · exact .inr (invariant.drain faithful grounded holds _).1

end SmaliTrace.Slice
