import SmaliTrace.Proofs.Slice.GroundedRun
import SmaliTrace.Proofs.Slice.Paths

/-!
Slices hang together. What a grounded edit adds, it adds below a node of the slice; so from every node a path
along predecessors leads to the node of the seed, and every constant is recorded at the node of its line. Every
origin that a record serves is a node of the slice too, so every link that is made later leads to a node; and as every
line has one node, the graph of a search passes its check.
-/
namespace SmaliTrace.Slice

variable {x : Context} {index : Index} {σ τ : State} {seed : LineId}

/-- Every line has one node, from which a path leads to the first node, that of the seed; constants are recorded
at the nodes of their lines. -/
structure Connected (seed : LineId) (σ : State) : Prop where
  start : σ.work.graph.lines.head? = some seed
  distinct : σ.work.graph.lines.Nodup
  path : ∀ id, σ.work.graph.Live id → Relation.ReflTransGen σ.work.graph.Pred id 0
  placed : ∀ k ∈ σ.constants, Stands σ.work.graph.lines (some k.node) k.line

/-! ### One edit -/

theorem live_iff_lines {g : SliceGraph} {id : Int} : g.Live id ↔ 0 ≤ id ∧ id < g.lines.length := by
  rw [SliceGraph.Live, SliceGraph.length_lines]

theorem Anchored.live {g : SliceGraph} {pred : Option NodeId} (anchored : Anchored g.lines pred) :
    ∃ p, pred = some p ∧ g.Live p := by
  obtain ⟨p, isPred, bound⟩ := anchored
  exact ⟨p, isPred, live_iff_lines.mpr (by omega)⟩

namespace Connected

/-- The lines and constants are the same, and no predecessor is lost. -/
theorem relink (connected : Connected seed σ) (lines : τ.work.graph.lines = σ.work.graph.lines)
    (preds : ∀ id p, σ.work.graph.Pred id p → τ.work.graph.Pred id p) (constants : τ.constants = σ.constants) :
    Connected seed τ where
  start := lines ▸ connected.start
  distinct := lines ▸ connected.distinct
  path id live := Relation.ReflTransGen.mono preds _ _ (connected.path id ((SliceGraph.live_congr lines).mp live))
  placed k kept := lines ▸ connected.placed k (constants ▸ kept)

/-- A line was added below a node, in a node of its own if it had none. -/
theorem extend (line : LineId) {pred : Option NodeId} (connected : Connected seed σ)
    (anchored : Anchored σ.work.graph.lines pred)
    (lines : τ.work.graph.lines = if (σ.work.graph.lines.findIdx? (· = line)).isSome then σ.work.graph.lines
      else σ.work.graph.lines ++ [line])
    (preds : ∀ id p : Int, τ.work.graph.Pred id p ↔ σ.work.graph.Pred id p ∨
      (id = ((σ.work.graph.lines.findIdx? (· = line)).getD σ.work.graph.lines.length : Nat) ∧ pred = some p ∧ p ≠ id))
    (constants : τ.constants = σ.constants) : Connected seed τ := by
  cases found : σ.work.graph.lines.findIdx? (· = line) with
  | some i =>
    rw [found] at lines
    exact connected.relink lines (fun id p old => (preds id p).mpr (.inl old)) constants
  | none =>
    rw [found] at lines preds
    replace lines : τ.work.graph.lines = σ.work.graph.lines ++ [line] := lines
    have grown : σ.work.graph.lines <+: τ.work.graph.lines := lines ▸ List.prefix_append ..
    have older : ∀ id, σ.work.graph.Live id → Relation.ReflTransGen τ.work.graph.Pred id 0 := fun id live =>
      Relation.ReflTransGen.mono (fun id p old => (preds id p).mpr (.inl old)) _ _ (connected.path id live)
    refine ⟨?_, ?_, fun id live => ?_, fun k kept => (connected.placed k (constants ▸ kept)).mono grown⟩
    · simp [lines, connected.start]
    · have fresh : line ∉ σ.work.graph.lines := fun inside => by simpa using List.findIdx?_eq_none_iff.mp found line inside
      rw [lines, ← List.concat_eq_append]
      exact connected.distinct.concat fresh
    · obtain ⟨p, isPred, below⟩ := anchored.live
      have bounds := live_iff_lines.mp live
      by_cases old : σ.work.graph.Live id
      · exact older id old
      -- the node of the line, whose one predecessor was in the slice before
      · have last : id = σ.work.graph.lines.length := by
          rw [live_iff_lines] at old
          simp only [lines, List.length_append, List.length_singleton] at bounds
          omega
        have other : p ≠ id := by
          rintro rfl
          exact old below
        exact .head ((preds id p).mpr (.inr ⟨last, isPred, other⟩)) (older p below)

theorem keep {k : Constant} (connected : Connected seed σ) (stands : Stands σ.work.graph.lines (some k.node) k.line) :
    Connected seed (σ.keep k) := by
  refine ⟨connected.start, connected.distinct, connected.path, fun k' kept => ?_⟩
  unfold State.keep addConstant at kept
  split at kept
  · next i _ =>
    -- a constant on the same line only changes its level
    obtain ⟨j, atJ⟩ := Array.mem_iff_getElem?.mp kept
    rw [Array.getElem?_modify] at atJ
    split at atJ
    · obtain ⟨old, isOld, rfl⟩ := Option.map_eq_some_iff.mp atJ
      exact connected.placed old (Array.mem_of_getElem? isOld)
    · exact connected.placed k' (Array.mem_of_getElem? atJ)
  · rcases Array.mem_push.mp kept with old | rfl
    · exact connected.placed k' old
    · exact stands

end Connected

theorem GroundedEdit.connected (edit : GroundedEdit index σ τ) (connected : Connected seed σ) : Connected seed τ := by
  cases edit with
  | request item =>
    have requests := requests_ask σ item
    exact connected.relink requests.lines requests.preds (by cases item <;> rfl)
  | node line pred key anchored =>
    refine connected.extend line anchored (SliceGraph.lines_addNode_eq line pred key) (fun id p => ?_) rfl
    rw [← SliceGraph.snd_addNode line pred key]
    exact SliceGraph.pred_addNode
  | constant line pred register target anchored =>
    refine connected.extend line anchored (SliceGraph.lines_addConstant_eq line pred register target)
      (fun id p => ?_) rfl
    rw [← SliceGraph.snd_addConstant line pred register target]
    exact SliceGraph.pred_addConstant
  | produced id key =>
    have rewired := Worklist.rewired_produce σ.work id key
    exact connected.relink rewired.lines rewired.preds rfl
  | kept k stands => exact connected.keep stands

/-! ### Whole searches -/

theorem Invariant.connected (seed : LineId) : Invariant index (Connected seed) where
  edit edit := edit.connected
  take took connected := connected.relink (by rw [took.graph]) (fun _ _ pred => by rwa [took.graph]) took.constants
  complete connected := connected.relink rfl (fun _ _ pred => pred) rfl

theorem connected_planted (x : Context) (line : LineId) (key : EdgeKey) : Connected line (planted x line key) where
  start := by rw [lines_planted]; rfl
  distinct := by rw [lines_planted]; exact List.nodup_singleton line
  path id live := by
    have bounds := live_iff_lines.mp live
    rw [lines_planted, List.length_singleton] at bounds
    obtain rfl : id = 0 := by omega
    exact .refl
  placed k kept := by simp [planted, startState] at kept

/-- Every search of a pattern ends, in whatever way, with a slice that hangs together; that of a search whose
seed failed is empty. -/
theorem Pattern.connected_search? (faithful : index.Faithful) {options : Options} {i : Nat} {pattern : Pattern}
    {s : Search} (found : pattern.search? index options i = some s) :
    s.run.2 = startState s.context ∨ Connected s.line s.run.2 := by
  obtain ⟨same, _, isPlanted⟩ := Pattern.planted_search? faithful found
  exact isPlanted.invariant (same ▸ faithful) (.connected s.line) (connected_planted s.context s.line)

/-! ### What searches leave -/

/-- The search started at the seed: unless its slice is empty, its first node is that of the seed, to which a path
leads from every node, and its constants are at the nodes of their lines. -/
structure SearchResult.Rooted (seed : LineId) (r : SearchResult) : Prop where
  start : r.graph.nodes.isEmpty = false → ∃ n, r.graph.start? = some n ∧ r.graph.lookup? seed = some n
  path : ∀ id, r.graph.Live id → ∃ n : Nat, r.graph.start? = some n ∧ Relation.ReflTransGen r.graph.Pred id n
  constants : ∀ k ∈ r.constants, ∃ n : Nat, r.graph.lookup? k.line = some n ∧ k.node = n

namespace Connected

theorem lookup?_seed (connected : Connected seed σ) : σ.work.graph.lookup? seed = some 0 := by
  rw [SliceGraph.lookup?_eq_some_iff connected.distinct, ← connected.start, List.head?_eq_getElem?]

theorem size_pos (connected : Connected seed σ) : 0 < σ.work.graph.nodes.size := by
  have start := connected.start
  rw [← SliceGraph.length_lines]
  exact List.length_pos_of_mem (List.mem_of_mem_head? start)

theorem start? (connected : Connected seed σ) : σ.work.graph.start? = some 0 := by
  have some := connected.size_pos
  have full : σ.work.graph.nodes.isEmpty = false := by simpa [Array.isEmpty, Nat.pos_iff_ne_zero] using some
  simp [SliceGraph.start?, full]

theorem lookup?_constant (connected : Connected seed σ) {k : Constant} (kept : k ∈ σ.constants) :
    ∃ n : Nat, σ.work.graph.lookup? k.line = some n ∧ k.node = n := by
  obtain ⟨n, isNode, found⟩ := connected.placed k kept
  exact ⟨n, (σ.work.graph.lookup?_eq k.line).trans found, by simpa using isNode⟩

end Connected

/-- A search of a pattern either leaves nothing or is connected to its seed. -/
theorem Pattern.connected_of_searches (faithful : index.Faithful) {options : Options} {i : Nat}
    (pattern : Pattern) {r : SearchResult} (found : (pattern.slice index options).searches[i]? = some r) :
    ∃ seed, (pattern.seedLines index)[i]? = some seed ∧
      ((r.graph = {} ∧ r.constants = []) ∨
        ∃ σ, Connected seed σ ∧ r.graph = σ.work.graph ∧ ∀ k ∈ r.constants, k ∈ σ.constants) := by
  rw [Pattern.getElem?_searches] at found
  obtain ⟨s, isSearch, rfl⟩ := Option.map_eq_some_iff.mp found
  refine ⟨s.line, Pattern.line_search? isSearch, ?_⟩
  rcases Pattern.connected_search? faithful isSearch with nothing | connected
  · refine .inl ⟨?_, ?_⟩
    · rw [Search.result, nothing]
      rfl
    · simp [Search.result, nothing, sortConstants, startState]
  · exact .inr ⟨s.run.2, connected, rfl, fun k inside => Array.mem_toList_iff.mp (List.mem_mergeSort.mp inside)⟩

theorem Pattern.rooted_searches (faithful : index.Faithful) {options : Options} {i : Nat}
    (pattern : Pattern) {r : SearchResult} (found : (pattern.slice index options).searches[i]? = some r) :
    ∃ seed, (pattern.seedLines index)[i]? = some seed ∧ r.Rooted seed := by
  obtain ⟨seed, isSeed, ⟨empty, none⟩ | ⟨σ, connected, graph, kept⟩⟩ := pattern.connected_of_searches faithful found
  · refine ⟨seed, isSeed, ?_, fun id live => ?_, ?_⟩
    · simp [empty]
    · rw [empty] at live
      have := live.1
      have := live.2
      simp at this
      omega
    · simp [none]
  · refine ⟨seed, isSeed, fun _ => ?_, fun id live => ?_, fun k inside => ?_⟩
    · exact ⟨0, graph ▸ connected.start?, graph ▸ connected.lookup?_seed⟩
    · exact ⟨0, graph ▸ connected.start?, graph ▸ connected.path id (graph ▸ live)⟩
    · exact graph ▸ connected.lookup?_constant (kept k inside)

/-! ### Predecessors are nodes -/

theorem Anchored.live_of_eq_some {g : SliceGraph} {node : Option NodeId} {p : Int} (anchored : Anchored g.lines node)
    (isNode : node = some p) : g.Live p := by
  obtain ⟨q, isNode', live⟩ := anchored.live
  cases isNode.symm.trans isNode'
  exact live

namespace Worklist

variable {records records' : Array Record} {g g' : SliceGraph} {w : Worklist} {o : Origin}

/-- All predecessors are nodes, and so are the origins that records serve. -/
structure Closed (records : Array Record) (g : SliceGraph) : Prop where
  preds : ∀ id p, g.Pred id p → g.Live p
  origins : ∀ i o, Serves records i o → Anchored g.lines o.node

namespace Closed

/-- Links to nodes were added, and records serve nodes. -/
theorem mono (closed : Closed records g) (grown : g.lines <+: g'.lines)
    (preds : ∀ id p, g'.Pred id p → g.Pred id p ∨ g.Live p)
    (origins : ∀ i o, Serves records' i o → Serves records i o ∨ Anchored g.lines o.node) : Closed records' g' where
  preds id p pred := by
    refine SliceGraph.live_of_prefix grown ?_
    rcases preds id p pred with old | live
    · exact closed.preds id p old
    · exact live
  origins i o serves := by
    refine Anchored.mono ?_ grown
    rcases origins i o serves with old | anchored
    · exact closed.origins i o old
    · exact anchored

theorem serve (closed : Closed records g) (anchored : Anchored g.lines o.node) (stack : List Nat) :
    Closed (Worklist.serve records g o stack).1 (Worklist.serve records g o stack).2 := by
  induction records, g, stack using serve.induct o with
  | case1 => rwa [Worklist.serve]
  | case2 records g i stack bound idle ih =>
    rw [Worklist.serve, dif_pos bound, dif_pos idle]
    have lines := lines_foldl_linkProduced o records[i].produced g
    refine ih (closed.mono (by rw [lines]) (fun id p pred => ?_) fun j q serves => ?_) (by rwa [lines])
    · rcases pred_foldl_produced.mp pred with old | ⟨_, _, isNode, _⟩
      · exact .inl old
      · exact .inr (anchored.live_of_eq_some isNode)
    · rcases (serves_await (Array.getElem?_eq_getElem bound)).mp serves with old | ⟨_, rfl⟩
      · exact .inl old
      · exact .inr anchored
  | case3 records g i stack bound busy ih =>
    rw [Worklist.serve, dif_pos bound, dif_neg busy]
    exact ih closed anchored
  | case4 records g i stack beyond ih =>
    rw [Worklist.serve, dif_neg beyond]
    exact ih closed anchored

theorem duplicate (closed : Closed w.records w.graph) (i : Nat) (anchored : Anchored w.graph.lines o.node) :
    Closed (w.duplicate i o).records (w.duplicate i o).graph :=
  closed.serve anchored [i]

theorem foldl_duplicate (i : Nat) (origins : List Origin) (closed : Closed w.records w.graph)
    (anchored : ∀ o ∈ origins, Anchored w.graph.lines o.node) :
    Closed (origins.foldl (fun w p => w.duplicate i p) w).records
      (origins.foldl (fun w p => w.duplicate i p) w).graph := by
  induction origins generalizing w with
  | nil => exact closed
  | cons o origins ih =>
    refine ih (closed.duplicate i (anchored o List.mem_cons_self)) fun q later => ?_
    rw [(relinked_duplicate w i o).lines]
    exact anchored q (List.mem_cons_of_mem _ later)

theorem inherit (closed : Closed w.records w.graph) (i : Nat) (o : Origin) :
    Closed (w.inherit i o).records (w.inherit i o).graph := by
  rcases w.inherit_cases i o with same | ⟨c, r, _, found, _, grown⟩
  · rwa [same]
  · rw [grown]
    have adopted : Closed (w.adopt c i).records (w.adopt c i).graph :=
      closed.mono List.prefix_rfl (fun _ _ => .inl) fun j q serves => .inl ((serves_adopt found).mp serves)
    refine adopted.foldl_duplicate i r.pending fun q waits => ?_
    exact closed.origins c q ((at_iff found).mpr (serves_iff.mpr (.inr waits)))

theorem accept (closed : Closed w.records w.graph) {key : ItemKey} {fuzzy offset : Int}
    {enqueue : Worklist → Worklist} (queues : Queues key fuzzy offset o enqueue)
    (anchored : Anchored w.graph.lines o.node) :
    Closed (w.accept key fuzzy offset o enqueue).1.records (w.accept key fuzzy offset o enqueue).1.graph := by
  rcases w.accept_cases key fuzzy offset o enqueue with ⟨_, refused⟩ | ⟨_, i, _, linked⟩ | ⟨_, _, queued⟩
  · rw [refused]
    exact closed
  · rw [linked]
    exact (closed.duplicate i anchored).inherit i o
  · rw [queued, queues.records, queues.graph]
    have pushed : Closed (w.records.push { origin := o }) w.graph := by
      refine closed.mono List.prefix_rfl (fun _ _ => .inl) fun j q serves => ?_
      rcases serves_push.mp serves with old | ⟨_, rfl⟩
      · exact .inl old
      · exact .inr anchored
    let fresh : Worklist :=
      { w with records := w.records.push { origin := o }, done := w.done.insert key w.records.size }
    exact inherit (w := fresh) pushed w.records.size o

theorem produce (closed : Closed w.records w.graph) (node : NodeId) (key : EdgeKey) :
    Closed (w.produce node key).records (w.produce node key).graph := by
  have lines := (relinked_produce w node key).lines
  unfold Worklist.produce at lines ⊢
  split
  · exact closed
  · next c _ =>
    split
    · exact closed
    · next r found =>
      simp only [*] at lines
      refine closed.mono (by rw [lines]) (fun id p pred => ?_) fun j q serves => ?_
      · rcases pred_foldl_pending.mp pred with old | ⟨_, _, o, waits, isNode, _⟩
        · exact .inl old
        · have served : Serves w.records c o := (at_iff found).mpr (serves_iff.mpr (.inr waits))
          exact .inr ((closed.origins c o served).live_of_eq_some isNode)
      · exact .inl ((at_modify_same found Iff.rfl).mp serves)

end Closed

end Worklist

open Worklist (Closed)

theorem GroundedEdit.closed (edit : GroundedEdit index σ τ) (closed : Closed σ.work.records σ.work.graph) :
    Closed τ.work.records τ.work.graph := by
  cases edit with
  | request item anchored =>
    cases item with
    | register r => exact closed.accept (Worklist.queues_register r) anchored
    | content kind c => exact closed.accept (Worklist.queues_content kind c) anchored
  | node line pred key anchored =>
    refine closed.mono (SliceGraph.lines_addNode ..).1 (fun id p isPred => ?_) fun _ _ => .inl
    rcases SliceGraph.pred_addNode.mp isPred with old | ⟨_, isNode, _⟩
    · exact .inl old
    · exact .inr (anchored.live_of_eq_some isNode)
  | constant line pred register target anchored =>
    refine closed.mono (SliceGraph.lines_addConstant ..).1 (fun id p isPred => ?_) fun _ _ => .inl
    rcases SliceGraph.pred_addConstant.mp isPred with old | ⟨_, isNode, _⟩
    · exact .inl old
    · exact .inr (anchored.live_of_eq_some isNode)
  | produced id key => exact closed.produce id key
  | kept k => exact closed

theorem Invariant.closed : Invariant index fun σ => Closed σ.work.records σ.work.graph where
  edit edit := edit.closed
  take took closed := by rwa [took.records, took.graph]
  complete closed := closed

theorem closed_planted (x : Context) (line : LineId) (key : EdgeKey) :
    Closed (planted x line key).work.records (planted x line key).work.graph where
  preds id p pred := by
    rcases SliceGraph.pred_addNode.mp pred with ⟨n, found, _⟩ | ⟨_, isNode, _⟩
    · simp [startState, SliceGraph.node?] at found
    · cases isNode
  origins i o serves := by
    obtain ⟨record, found, _⟩ := serves
    simp [planted, startState, Worklist.addNode] at found

/-- The graph of every search of a pattern passes its check, however the search ends. -/
theorem Pattern.check_searches (faithful : index.Faithful) {options : Options} {i : Nat} {pattern : Pattern}
    {r : SearchResult} (found : (pattern.slice index options).searches[i]? = some r) : r.graph.check = .ok () := by
  rw [Pattern.getElem?_searches] at found
  obtain ⟨s, isSearch, rfl⟩ := Option.map_eq_some_iff.mp found
  obtain ⟨same, _, isPlanted⟩ := Pattern.planted_search? faithful isSearch
  rcases isPlanted.invariant (same ▸ faithful) .closed (closed_planted s.context s.line) with nothing | closed
  · rw [Search.result, nothing]
    rfl
  · rcases Pattern.connected_search? faithful isSearch with nothing | connected
    · rw [Search.result, nothing]
      rfl
    · exact SliceGraph.check_eq_ok connected.distinct closed.preds

end SmaliTrace.Slice
