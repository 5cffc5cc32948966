import SmaliTrace.Proofs.Graph.DepthFirst
import SmaliTrace.Proofs.Slice.Connection
import SmaliTrace.Proofs.Slice.ForwardCompleteness

/-!
Visits of slices. A slice is walked from its leaves, the nodes that are no predecessor, and each node that a leaf
leads to is visited once. What is left out is behind a cycle that no leaf leads to: a value that is only ever copied
around, or a parameter that recursive methods only ever hand to each other.
-/
namespace SmaliTrace.Graph

/-- In a finite set in which every element has one before it, every element is behind a cycle of the set. -/
theorem exists_cycle_before {α : Type} {r : α → α → Prop} {s : Set α} (finite : s.Finite)
    (before : ∀ a ∈ s, ∃ b ∈ s, r b a) {a : α} (inside : a ∈ s) :
    ∃ c ∈ s, Relation.TransGen r c c ∧ Relation.ReflTransGen r c a := by
  by_contra acyclic
  let above : Set α := {b | b ∈ s ∧ Relation.ReflTransGen r b a}
  let precedes : above → above → Prop := fun b c => Relation.TransGen r b c
  have : Finite above := (finite.subset fun _ isAbove => isAbove.1).to_subtype
  have : IsTrans above precedes := ⟨fun _ _ _ first last => first.trans last⟩
  have : Std.Irrefl precedes := ⟨fun c cycle => acyclic ⟨c, c.2.1, cycle, c.2.2⟩⟩
  obtain ⟨first, -, minimal⟩ := (Finite.wellFounded_of_trans_of_irrefl precedes).has_min Set.univ
    ⟨⟨a, inside, .refl⟩, trivial⟩
  obtain ⟨b, isBefore, step⟩ := before first first.2.1
  exact minimal ⟨b, isBefore, .head step first.2.2⟩ trivial (.single step)

end SmaliTrace.Graph

namespace SmaliTrace.Slice
open SmaliTrace.ClassFile SmaliTrace.Smali

namespace SliceGraph

variable {g : SliceGraph} {id : Nat}

/-- A leaf is a node that is no predecessor. -/
theorem mem_leaves_iff (checked : g.check = .ok ()) :
    id ∈ g.leaves ↔ id < g.nodes.size ∧ ∀ i : Nat, ¬ g.Pred i id := by
  simp only [leaves, Graph.leaves, List.mem_filter, Bool.not_eq_true', List.any_eq_false, List.contains_iff_mem,
    mem_next_iff_of_check checked, ids, List.mem_range]
  refine and_congr_right fun _ => ⟨fun unnamed i pred => unnamed i ?_ pred, fun unnamed i _ => unnamed i⟩
  have := (live_of_pred pred).2
  omega

theorem mem_preorder_iff (checked : g.check = .ok ()) :
    id ∈ g.preorder ↔ ∃ leaf ∈ g.leaves, Relation.ReflTransGen (fun i j : Nat => g.Pred i j) leaf id := by
  rw [preorder, Graph.mem_preorder_iff, enters_eq_of_check checked]
  refine exists_congr fun leaf => and_congr_right fun isLeaf => and_iff_right ?_
  exact (List.mem_filter.mp isLeaf).1

theorem nodup_preorder (g : SliceGraph) : g.preorder.Nodup := Graph.nodup_preorder g.nodup_ids

theorem visitUntil_of_never {stop : Nat → Bool} (never : ∀ id, stop id = false) :
    g.visitUntil stop = (g.preorder, false) := by
  have none : g.preorder.findIdx? stop = none := List.findIdx?_eq_none_iff.mpr fun id _ => never id
  rw [visitUntil, none]

/-- A node that is not visited is behind a cycle that is not visited. -/
theorem exists_cycle_of_notMem_preorder (checked : g.check = .ok ()) (bound : id < g.nodes.size)
    (unvisited : id ∉ g.preorder) :
    ∃ c : Nat, c ∉ g.preorder ∧ Relation.TransGen (fun i j : Nat => g.Pred i j) c c ∧
      Relation.ReflTransGen (fun i j : Nat => g.Pred i j) c id := by
  have finite : {i | i < g.nodes.size ∧ i ∉ g.preorder}.Finite :=
    (Set.finite_lt_nat g.nodes.size).subset fun _ inside => inside.1
  -- a node with none before it is a leaf, and a node behind one that is visited is visited
  have before : ∀ i ∈ {i | i < g.nodes.size ∧ i ∉ g.preorder}, ∃ j ∈ {i | i < g.nodes.size ∧ i ∉ g.preorder},
      g.Pred (j : Nat) (i : Nat) := by
    rintro i ⟨bound, unvisited⟩
    have isNoLeaf : i ∉ g.leaves := fun isLeaf => unvisited ((mem_preorder_iff checked).mpr ⟨i, isLeaf, .refl⟩)
    rw [mem_leaves_iff checked] at isNoLeaf
    simp only [bound, true_and, not_forall, not_not] at isNoLeaf
    obtain ⟨j, pred⟩ := isNoLeaf
    have live := (live_of_pred pred).2
    refine ⟨j, ⟨by omega, fun visited => ?_⟩, pred⟩
    obtain ⟨leaf, isLeaf, path⟩ := (mem_preorder_iff checked).mp visited
    exact unvisited ((mem_preorder_iff checked).mpr ⟨leaf, isLeaf, path.tail pred⟩)
  obtain ⟨c, inside, cycle, path⟩ := Graph.exists_cycle_before finite before ⟨bound, unvisited⟩
  exact ⟨c, inside.2, cycle, path⟩

end SliceGraph

/-- A walk that visits anything visits the seed. -/
theorem SearchResult.Rooted.start_mem_preorder {seed : LineId} {r : SearchResult} {id : Nat} (rooted : r.Rooted seed)
    (checked : r.graph.check = .ok ()) (visited : id ∈ r.graph.preorder) :
    ∃ n, r.graph.start? = some n ∧ n ∈ r.graph.preorder := by
  have bound : id < r.graph.nodes.size := List.mem_range.mp (Graph.preorder_subset visited)
  obtain ⟨n, isStart, path⟩ := rooted.path id ⟨by omega, by omega⟩
  have first : n = 0 := by
    unfold SliceGraph.start? at isStart
    split at isStart
    · cases isStart
    · exact (Option.some.inj isStart).symm
  subst first
  have reach := SliceGraph.reach_of_path (by omega) path
  rw [SliceGraph.enters_eq_of_check checked, Int.toNat_natCast] at reach
  obtain ⟨leaf, isLeaf, before⟩ := (SliceGraph.mem_preorder_iff checked).mp visited
  exact ⟨0, isStart, (SliceGraph.mem_preorder_iff checked).mpr ⟨leaf, isLeaf, before.trans reach⟩⟩

/-- The slice of every search of an indexed program passes its check, and a visitor that never stops the visit is
called once for every node that a leaf leads to, a leaf being a node that is no predecessor, and for no other node.
A node that is left out is behind a cycle that is left out, so that a slice without such a cycle is visited wholly; and
unless the visitor is not called at all, it is called for the seed. -/
theorem visits_from_leaves (program : Program) (excluded : List String) (options : Options) (pattern : Pattern)
    (i : Nat) (r : SearchResult)
    (found : (pattern.slice (Index.ofProgram program excluded).index options).searches[i]? = some r) :
    r.graph.check = .ok () ∧
      (∀ stop : Nat → Bool, (∀ id, stop id = false) → r.graph.visitUntil stop = (r.graph.preorder, false)) ∧
      r.graph.preorder.Nodup ∧
      (∀ id, id ∈ r.graph.preorder ↔ ∃ leaf, (leaf < r.graph.nodes.size ∧ ∀ j : Nat, ¬ r.graph.Pred j leaf) ∧
        Relation.ReflTransGen (fun i j : Nat => r.graph.Pred i j) leaf id) ∧
      (∀ id < r.graph.nodes.size, id ∉ r.graph.preorder → ∃ c : Nat, c ∉ r.graph.preorder ∧
        Relation.TransGen (fun i j : Nat => r.graph.Pred i j) c c ∧
        Relation.ReflTransGen (fun i j : Nat => r.graph.Pred i j) c id) ∧
      (r.graph.preorder ≠ [] → ∃ n, r.graph.start? = some n ∧ n ∈ r.graph.preorder) := by
  have faithful := Index.faithful_ofProgram program excluded
  have checked := Pattern.check_searches faithful found
  obtain ⟨seed, -, rooted⟩ := pattern.rooted_searches faithful found
  refine ⟨checked, fun stop never => SliceGraph.visitUntil_of_never never, r.graph.nodup_preorder, fun id => ?_,
    fun id bound unvisited => SliceGraph.exists_cycle_of_notMem_preorder checked bound unvisited, fun some => ?_⟩
  · simp only [SliceGraph.mem_preorder_iff checked, SliceGraph.mem_leaves_iff checked]
  · obtain ⟨id, visited⟩ := List.exists_mem_of_ne_nil _ some
    exact rooted.start_mem_preorder checked visited

/-! ### A loop -/

/-- A body that copies the result of a call back and forth for ever, with another line in the loop. -/
def backAndForth (use : Instruction) : Method where
  owner := "LMain;"
  name := "run"
  params := []
  result := "V"
  flags := [.static]
  lines := #[
    ⟨1, "invoke-static", .invoke [] ⟨"LSource;", "make", [], "LKey;"⟩, ""⟩,
    ⟨2, "move-result-object", .moveResult "v0", ""⟩,
    ⟨3, "", .label "top", ""⟩,
    ⟨4, "move-object", .move "v1" "v0", ""⟩,
    ⟨5, use⟩,
    ⟨6, "move-object", .move "v0" "v1", ""⟩,
    ⟨7, "goto", .goto "top", ""⟩]

def backAndForthProgram (use : Instruction) : Program := Index.oneMethod (backAndForth use)

/-- Nothing is done with the value. -/
def idling : Instruction := ⟨"nop", .nop, ""⟩

/-- The value is passed on. -/
def passing : Instruction := ⟨"invoke-static", .invoke ["v1"] ⟨"LSink;", "take", ["LKey;"], "V"⟩, ""⟩

def backAndForthGraph : BlockGraph.Graph where
  blocks := #[
    { lines := [0, 1], label := some 0, preds := [], succs := [1], returns := false, throws := false,
      jumps := false, dead := false, isTry := false, isHandler := false },
    { lines := [2, 3, 4, 5, 6], label := some 1, preds := [1, 0], succs := [1], returns := false, throws := false,
      jumps := true, dead := false, isTry := false, isHandler := false }]

/-- The index of the program, whose calls are at the given lines. -/
def backAndForthIndex (use : Instruction) (calls : List Nat) : Index := .single (backAndForth use) backAndForthGraph calls

theorem built_backAndForth : BlockGraph.ofMethod (backAndForth idling) = .ok backAndForthGraph ∧
    BlockGraph.ofMethod (backAndForth passing) = .ok backAndForthGraph := by cbv

theorem index_idling : (Index.ofProgram (backAndForthProgram idling) []).index = backAndForthIndex idling [0] :=
  Index.index_oneMethod (by decide) built_backAndForth.1 (by decide) rfl

theorem index_passing : (Index.ofProgram (backAndForthProgram passing) []).index = backAndForthIndex passing [0, 4] :=
  Index.index_oneMethod (by decide) built_backAndForth.2 (by decide) rfl

/-- The search for where the result of the call goes. -/
def backAndForthSearch (use : Instruction) (calls : List Nat) : Search :=
  ⟨forwardContext (backAndForthIndex use calls) { noRedirects with maxIterations := 16 } 0, passResultSeed.line.id,
    seedForward passResultSeed⟩

theorem forwardSeeds_backAndForth {use : Instruction} {calls : List Nat}
    (made : ((backAndForthIndex use calls).callSites.lines "make").toList = [.body ⟨0, 0⟩ 0]) :
    forwardSeeds (backAndForthIndex use calls) sourcePattern = [passResultSeed] := by
  have located : backAndForthGraph.locate? 0 = some (0, 0) := by
    simp [BlockGraph.Graph.locate?, backAndForthGraph, List.findIdx?_cons]
  exact forwardSeeds_sourcePattern rfl located made rfl (by rw [Index.sites_of_prepared rfl rfl]; rfl)

theorem getElem?_searches_backAndForth {use : Instruction} {calls : List Nat}
    (index : (Index.ofProgram (backAndForthProgram use) []).index = backAndForthIndex use calls)
    (seeds : forwardSeeds (backAndForthIndex use calls) sourcePattern = [passResultSeed]) :
    ((Pattern.forward sourcePattern).slice (Index.ofProgram (backAndForthProgram use) []).index
      { noRedirects with maxIterations := 16 }).searches[0]? = some (backAndForthSearch use calls).result := by
  rw [index, Pattern.getElem?_searches]
  simp only [Pattern.search?, seeds]
  rfl

/-- The search where the value is passed on in the loop. -/
def passingSearch : Search := backAndForthSearch passing [0, 4]

/-- The line where the value leaves the loop is a leaf, from which the loop and all that is behind it are visited. -/
theorem passing_visited :
    ∃ r : SearchResult, ((Pattern.forward sourcePattern).slice (Index.ofProgram (backAndForthProgram passing) []).index
        { noRedirects with maxIterations := 16 }).searches[0]? = some r ∧
      r.graph.nodes.map Node.preds = #[[], [0], [1, 4], [2], [2]] ∧
      r.graph.check = .ok () ∧ r.graph.visitUntil (fun _ => false) = ([3, 2, 1, 0, 4], false) ∧
      ∃ leaf, (leaf < r.graph.nodes.size ∧ ∀ j : Nat, ¬ r.graph.Pred j leaf) ∧
        Relation.ReflTransGen (fun i j : Nat => r.graph.Pred i j) leaf 4 := by
  have seeds : forwardSeeds (backAndForthIndex passing [0, 4]) sourcePattern = [passResultSeed] :=
    forwardSeeds_backAndForth ((Index.lines_single "make").trans (by decide))
  have walked : (passingSearch.result.graph.nodes.map Node.preds, passingSearch.result.graph.preorder) =
      (#[[], [0], [1, 4], [2], [2]], [3, 2, 1, 0, 4]) := by cbv
  obtain ⟨preds, order⟩ := Prod.mk.inj walked
  have found : ((Pattern.forward sourcePattern).slice (Index.ofProgram (backAndForthProgram passing) []).index
      { noRedirects with maxIterations := 16 }).searches[0]? = some passingSearch.result :=
    getElem?_searches_backAndForth index_passing seeds
  obtain ⟨checked, called, -, reached, -, -⟩ := visits_from_leaves _ _ _ _ _ _ found
  have visits := called (fun _ => false) fun _ => rfl
  have behind := reached 4
  rw [order] at visits behind
  exact ⟨_, found, preds, checked, visits, behind.mp (by decide)⟩

/-- The search where nothing is done with the value in the loop. -/
def idlingSearch : Search := backAndForthSearch idling [0]

/-- The value goes nowhere but back and forth: its slice has no leaf, and none of its nodes is visited. -/
theorem idling_unvisited :
    ∃ r : SearchResult, ((Pattern.forward sourcePattern).slice (Index.ofProgram (backAndForthProgram idling) []).index
        { noRedirects with maxIterations := 16 }).searches[0]? = some r ∧
      r.outcome = .completed ∧ r.graph.nodes.map Node.preds = #[[], [0], [1, 3], [2]] ∧
      r.graph.visitUntil (fun _ => false) = ([], false) := by
  have seeds : forwardSeeds (backAndForthIndex idling [0]) sourcePattern = [passResultSeed] :=
    forwardSeeds_backAndForth ((Index.lines_single "make").trans (by decide))
  have walked : (idlingSearch.run.1, idlingSearch.result.graph.nodes.map Node.preds,
      idlingSearch.result.graph.preorder) = (.ok (), #[[], [0], [1, 3], [2]], []) := by cbv
  obtain ⟨ran, walked⟩ := Prod.mk.inj walked
  obtain ⟨preds, order⟩ := Prod.mk.inj walked
  have completed : idlingSearch.result.outcome = .completed := by simp only [Search.result, Search.outcome, ran]
  have visits : idlingSearch.result.graph.visitUntil (fun _ => false) = (idlingSearch.result.graph.preorder, false) :=
    SliceGraph.visitUntil_of_never fun _ => rfl
  rw [order] at visits
  exact ⟨_, getElem?_searches_backAndForth index_idling seeds, completed, preds, visits⟩

end SmaliTrace.Slice
