import Mathlib
import SmaliTrace.Proofs.Graph.BackLinks
import SmaliTrace.Proofs.Graph.SimplePaths
import SmaliTrace.Proofs.Slice.Graph

/-!
Paths through slice graphs. In a graph that passes its check, the paths that are enumerated are all paths along
predecessors without repetition, each once and in lexicographic order, and a shortest path is found where there is
any, by a search that walks back from its target to its start.
-/
namespace SmaliTrace.Slice

/-! ### Ascending ids -/

section
variable {ids more : List NodeId}

theorem pairwise_insertId (id : NodeId) (sorted : ids.Pairwise (· < ·)) : (insertId id ids).Pairwise (· < ·) := by
  induction ids with
  | nil => exact List.pairwise_singleton _ _
  | cons a ids ih =>
    obtain ⟨first, rest⟩ := List.pairwise_cons.mp sorted
    unfold insertId
    split
    · next before =>
      refine List.pairwise_cons.mpr ⟨fun b inside => ?_, sorted⟩
      rcases List.mem_cons.mp inside with rfl | inside
      · exact before
      · exact Int.lt_trans before (first b inside)
    · split
      · exact sorted
      · next later other =>
        refine List.pairwise_cons.mpr ⟨fun b inside => ?_, ih rest⟩
        rcases mem_insertId.mp inside with rfl | inside
        · exact Int.lt_iff_le_and_ne.mpr ⟨Int.not_lt.mp later, Ne.symm other⟩
        · exact first b inside

theorem pairwise_unionIds (more : List NodeId) (sorted : ids.Pairwise (· < ·)) :
    (unionIds ids more).Pairwise (· < ·) := by
  unfold unionIds
  induction more generalizing ids with
  | nil => exact sorted
  | cons id more ih => exact ih (pairwise_insertId id sorted)

theorem Node.pairwise_preds (n : Node) : n.preds.Pairwise (· < ·) := by
  have collected : ∀ (edges : Inbound) (ids : List NodeId), ids.Pairwise (· < ·) →
      (edges.foldl (fun ids edge => unionIds ids edge.2) ids).Pairwise (· < ·) := by
    intro edges
    induction edges with
    | nil => exact fun _ sorted => sorted
    | cons edge edges ih => exact fun ids sorted => ih _ (pairwise_unionIds edge.2 sorted)
  exact collected n.inbound [] .nil

end

namespace SliceGraph

variable {g : SliceGraph} {a target : Nat} {path : List Nat}

/-! ### Steps along predecessors -/

theorem nodup_ids (g : SliceGraph) : g.ids.Nodup := List.nodup_range

theorem mem_next_iff {i j : Nat} : j ∈ g.next i ↔ g.Pred i j ∧ j < g.nodes.size := by
  unfold Pred
  simp only [node?_eq_some_iff, Int.natCast_nonneg, Int.toNat_natCast, true_and, next]
  cases g.nodes[i]? with
  | none => simp
  | some n =>
    simp only [List.mem_map, List.mem_filter, Bool.and_eq_true, decide_eq_true_eq, Option.some.injEq,
      exists_eq_left']
    constructor
    · rintro ⟨p, ⟨isPred, natural, live⟩, rfl⟩
      exact ⟨by rwa [Int.toNat_of_nonneg natural], by omega⟩
    · rintro ⟨isPred, live⟩
      exact ⟨j, ⟨isPred, by omega, by omega⟩, by omega⟩

theorem enters_iff {i j : Nat} : Graph.Enters g.next g.ids i j ↔ g.Pred i j ∧ j < g.nodes.size := by
  unfold Graph.Enters
  rw [mem_next_iff, ids, List.mem_range]
  exact and_iff_left_of_imp And.right

theorem pairwise_next (g : SliceGraph) (i : Nat) : (g.next i).Pairwise (· < ·) := by
  unfold next
  split
  · next n _ =>
    rw [List.pairwise_map]
    refine (n.pairwise_preds.filter _).imp_of_mem fun {p q} first _ before => ?_
    have natural : 0 ≤ p := by
      have kept := (List.mem_filter.mp first).2
      simp only [Bool.and_eq_true, decide_eq_true_eq] at kept
      exact kept.1
    exact (Int.toNat_lt_toNat (Int.lt_of_le_of_lt natural before)).mpr before
  · exact .nil

theorem mem_ids_of_mem_next {i : Nat} (_ : i ∈ g.ids) : ∀ j ∈ g.next i, j ∈ g.ids :=
  fun _ follows => List.mem_range.mpr (mem_next_iff.mp follows).2

/-! ### Checked graphs -/

theorem forM_eq_ok_iff {α ε : Type} {items : List α} {f : α → Except ε Unit} :
    items.forM f = .ok () ↔ ∀ a ∈ items, f a = .ok () := by
  induction items with
  | nil => simp [pure, Except.pure]
  | cons a items ih =>
    have unfolded : (a :: items).forM f = (f a >>= fun _ => items.forM f) := rfl
    rw [unfolded, List.forall_mem_cons, ← ih]
    cases f a <;> simp [bind, Except.bind]

/-- A graph passes its check if every line has one node and predecessors are nodes. -/
theorem check_eq_ok (distinct : g.lines.Nodup) (closed : ∀ id p, g.Pred id p → g.Live p) : g.check = .ok () := by
  refine forM_eq_ok_iff.mpr fun i _ => ?_
  cases atI : g.nodes[i]? with
  | none => rfl
  | some n =>
    have found : g.lookup? n.line = some i := (lookup?_eq_some_iff distinct).mpr (by simp [getElem?_lines, atI])
    have live : n.preds.find? (fun p => p < 0 || (g.nodes.size : Int) ≤ p) = none := by
      refine List.find?_eq_none.mpr fun p isPred => ?_
      have isNode := closed i p ⟨n, node?_eq_some_iff.mpr ⟨by omega, atI⟩, isPred⟩
      have := isNode.1
      have := isNode.2
      simp
      omega
    simp [found, live]

/-- In a graph that passes its check, predecessors are nodes. -/
theorem live_of_check (checked : g.check = .ok ()) {id p : Int} (pred : g.Pred id p) : g.Live p := by
  obtain ⟨n, found, isPred⟩ := pred
  obtain ⟨natural, atId⟩ := node?_eq_some_iff.mp found
  have bound := (Array.getElem?_eq_some_iff.mp atId).1
  have passes := forM_eq_ok_iff.mp checked id.toNat (List.mem_range.mpr bound)
  simp only [atId] at passes
  -- the line of the node has a node, so its predecessors are looked at
  cases known : g.lookup? n.line with
  | none =>
    have isNone := Array.findIdx?_eq_none_iff.mp known n (Array.mem_of_getElem? atId)
    simp at isNone
  | some i =>
    simp only [known] at passes
    split at passes
    · cases passes
    · split at passes
      · cases passes
      · next none =>
        have inside := List.find?_eq_none.mp none p isPred
        simp only [Bool.or_eq_true, decide_eq_true_eq, not_or] at inside
        exact ⟨by omega, by omega⟩

theorem mem_next_iff_of_check (checked : g.check = .ok ()) {i j : Nat} : j ∈ g.next i ↔ g.Pred i j := by
  rw [mem_next_iff]
  refine and_iff_left_of_imp fun pred => ?_
  have := (live_of_check checked pred).2
  omega

theorem enters_eq_of_check (checked : g.check = .ok ()) :
    Graph.Enters g.next g.ids = fun i j : Nat => g.Pred i j := by
  funext i j
  rw [enters_iff, ← mem_next_iff, mem_next_iff_of_check checked]

/-- The nodes from one to the other, each but the last followed by one of its predecessors. -/
def Path (g : SliceGraph) (a target : Nat) (path : List Nat) : Prop :=
  Graph.Walk (fun i j : Nat => g.Pred i j) a target path

/-! ### All paths -/

theorem allPaths_eq (start : a < g.nodes.size) (last : target < g.nodes.size) :
    g.allPaths a target = Graph.allPaths g.next g.ids a target := by
  have first : g.node? a = some g.nodes[a] := node?_eq_some_iff.mpr ⟨by omega, Array.getElem?_eq_getElem start⟩
  have second : g.node? target = some g.nodes[target] :=
    node?_eq_some_iff.mpr ⟨by omega, Array.getElem?_eq_getElem last⟩
  simp only [allPaths, first, second, Int.toNat_natCast]

theorem allPaths_eq_nil {a target : NodeId} (absent : g.node? a = none ∨ g.node? target = none) :
    g.allPaths a target = [] := by
  unfold allPaths
  rcases absent with none | none <;> simp [none]

theorem allPaths_eq_simplePaths (start : a < g.nodes.size) (last : target < g.nodes.size) :
    g.allPaths a target = Graph.simplePaths g.next target (g.ids.erase a) a := by
  rw [allPaths_eq start last, Graph.allPaths, if_neg (by simp [ids, start, last])]

theorem mem_allPaths_iff (checked : g.check = .ok ()) (start : a < g.nodes.size) (last : target < g.nodes.size) :
    path ∈ g.allPaths a target ↔ g.Path a target path ∧ path.Nodup := by
  have steps : (fun i j => j ∈ g.next i) = fun i j : Nat => g.Pred i j := by
    funext i j
    exact propext (mem_next_iff_of_check checked)
  rw [allPaths_eq_simplePaths start last, Graph.mem_simplePaths_iff (g.nodup_ids.erase a) g.nodup_ids.not_mem_erase,
    steps, ← and_assoc]
  refine and_iff_left_of_imp ?_
  rintro ⟨walk, distinct⟩ b inside
  -- behind the start there are nodes only, and the start does not come again
  have live : b ∈ g.ids := by
    refine walk.holds_of_mem_tail (fun i j pred => ?_) b inside
    exact List.mem_range.mpr (mem_next_iff.mp ((mem_next_iff_of_check checked).mpr pred)).2
  obtain ⟨rest, rfl⟩ := List.head?_eq_some_iff.mp walk.head
  have other : b ≠ a := by
    rintro rfl
    exact (List.nodup_cons.mp distinct).1 inside
  exact (List.mem_erase_of_ne other).mpr live

/-- In a graph that passes its check, the enumeration gives the paths without repetition from one node to another,
each once and in lexicographic order, and only the one node where they are the same; there are none from or to an id
that names no node. A walk with a single path and a single set of its nodes ends, has found the same, and leaves
its path and its set as they were. -/
theorem allPaths_enumerates (checked : g.check = .ok ()) :
    (∀ a target : NodeId, g.node? a = none ∨ g.node? target = none → g.allPaths a target = []) ∧
    ∀ a target : Nat, a < g.nodes.size → target < g.nodes.size →
      (∀ path, path ∈ g.allPaths a target ↔ g.Path a target path ∧ path.Nodup) ∧
      (g.allPaths a target).Nodup ∧ (g.allPaths a target).Pairwise (· < ·) ∧
      (a = target → g.allPaths a target = [[a]]) ∧
      ∀ s, Graph.Explores g.next target {} [a] s ↔ s = { found := g.allPaths a target } := by
  refine ⟨fun a target absent => allPaths_eq_nil absent, fun a target start last => ?_⟩
  have sorted : (g.allPaths a target).Pairwise (· < ·) := by
    rw [allPaths_eq_simplePaths start last]
    exact Graph.pairwise_simplePaths g.pairwise_next
  refine ⟨fun path => mem_allPaths_iff checked start last, ?_, sorted, ?_, fun s => ?_⟩
  · refine sorted.imp fun before => ?_
    rintro rfl
    exact List.lt_irrefl _ before
  · rintro rfl
    rw [allPaths_eq_simplePaths start start, Graph.simplePaths_target]
  · rw [allPaths_eq start last]
    exact Graph.explores_iff (fun i inside => mem_ids_of_mem_next inside) g.nodup_ids (List.mem_range.mpr start)
      (List.mem_range.mpr last)

/-- Two nodes that are predecessors of each other, between the seed and the constant. -/
def roundabout : SliceGraph where
  nodes := #[
    { line := .body ⟨0, 0⟩ 4, inbound := [(⟨"v1", "v0"⟩, [1])] },
    { line := .body ⟨0, 0⟩ 3, inbound := [(⟨"v1", "v0"⟩, [0, 2])] },
    { line := .body ⟨0, 0⟩ 2, inbound := [(⟨"v0", "v1"⟩, [1]), (⟨"v0", "v0"⟩, [0])] },
    { line := .body ⟨0, 0⟩ 1, terminal := some "v0", inbound := [(⟨"const", "v1"⟩, [2]), (⟨"const", "v0"⟩, [1])] }]

/-- From the constant to the seed there are four paths. -/
theorem roundabout_enumerates :
    roundabout.check = .ok () ∧
      (∀ path ∈ [[3, 1, 0], [3, 1, 2, 0], [3, 2, 0], [3, 2, 1, 0]], path ∈ roundabout.allPaths 3 0) ∧
      [3, 1, 2, 1, 0] ∉ roundabout.allPaths 3 0 ∧ roundabout.allPaths 2 2 = [[2]] ∧ roundabout.allPaths (-1) 0 = [] := by
  have checked : roundabout.check = .ok () := by cbv
  obtain ⟨none, all⟩ := allPaths_enumerates checked
  have steps : ∀ i j : Nat, j ∈ roundabout.next i → roundabout.Pred i j := fun i j =>
    (mem_next_iff_of_check checked).mp
  refine ⟨checked, fun path inside => ((all 3 0 (by decide) (by decide)).1 path).mpr ?_, fun again => ?_,
    (all 2 2 (by decide) (by decide)).2.2.2.1 rfl, none (-1) 0 (.inl rfl)⟩
  · simp only [List.mem_cons, List.not_mem_nil, or_false] at inside
    rcases inside with rfl | rfl | rfl | rfl
    all_goals
      refine ⟨⟨rfl, rfl, ?_⟩, by decide⟩
      simp only [List.isChain_cons_cons, List.isChain_singleton, and_true]
      repeat' apply And.intro
      all_goals exact steps _ _ (by decide)
  · have distinct := (((all 3 0 (by decide) (by decide)).1 _).mp again).2
    exact absurd distinct (by decide)

/-! ### Shortest paths -/

/-- In a graph that passes its check, no path is found exactly if none leads along predecessors to the target; else a
path with the fewest nodes of all, those of the enumeration among them. The search has links to walk back along
exactly if there is a path, and the walk from the target ends at the start, with the path that is found. -/
theorem shortestPath?_fewest (checked : g.check = .ok ()) (start : a < g.nodes.size) (last : target < g.nodes.size) :
    (g.shortestPath? a target = none ↔ ¬ Relation.ReflTransGen (fun i j : Nat => g.Pred i j) a target) ∧
    (∀ path, g.shortestPath? a target = some path →
      g.Path a target path ∧ (∀ other, g.Path a target other → path.length ≤ other.length) ∧
        ∀ other ∈ g.allPaths a target, path.length ≤ other.length) ∧
    (Graph.linksTo? g.next target (g.ids.erase a) [a] = none ↔ g.shortestPath? a target = none) ∧
    ∀ links, Graph.linksTo? g.next target (g.ids.erase a) [a] = some links →
      ∃ path, g.shortestPath? a target = some path ∧ ∀ whole, Graph.WalksBack links a target [] whole ↔ whole = path := by
  have isNode : a ∈ g.ids := List.mem_range.mpr start
  have isNode' : target ∈ g.ids := List.mem_range.mpr last
  have reach : g.shortestPath? a target = none ↔ ¬ Relation.ReflTransGen (Graph.Enters g.next g.ids) a target :=
    Graph.shortestPath?_eq_none_iff_not_reach g.nodup_ids isNode isNode'
  obtain ⟨none, back⟩ := Graph.walksBack_of_linksTo? g.nodup_ids isNode isNode'
  refine ⟨by rw [reach, enters_eq_of_check checked], fun path found => ?_, none, back⟩
  have reached : Relation.ReflTransGen (Graph.Enters g.next g.ids) a target := by
    by_contra unreached
    simp [reach.mpr unreached] at found
  obtain ⟨shortest, isShortest, walk, fewest⟩ := Graph.shortestPath?_of_reach g.nodup_ids isNode reached
  obtain rfl : shortest = path := Option.some.inj (isShortest.symm.trans found)
  rw [enters_eq_of_check checked] at walk fewest
  exact ⟨walk, fewest, fun other inside => fewest other ((mem_allPaths_iff checked start last).mp inside).1⟩

/-- One of the two ways past the circle is found, and none from the seed to the constant. -/
theorem roundabout_fewest :
    roundabout.check = .ok () ∧ roundabout.shortestPath? 3 0 = some [3, 1, 0] ∧
      (∀ other, roundabout.Path 3 0 other → 3 ≤ other.length) ∧
      ¬ Relation.ReflTransGen (fun i j : Nat => roundabout.Pred i j) 0 3 ∧
      ∃ links, Graph.linksTo? roundabout.next 0 (roundabout.ids.erase 3) [3] = some links ∧
        ∀ whole, Graph.WalksBack links 3 0 [] whole ↔ whole = [3, 1, 0] := by
  have checked : roundabout.check = .ok () := by cbv
  have found : roundabout.shortestPath? 3 0 = some [3, 1, 0] := by cbv
  have nothing : roundabout.shortestPath? 0 3 = none := by cbv
  have seed : 0 < roundabout.nodes.size := by decide
  have constant : 3 < roundabout.nodes.size := by decide
  obtain ⟨-, fewest, recorded, back⟩ := shortestPath?_fewest checked constant seed
  have unreached := (shortestPath?_fewest checked seed constant).1.mp nothing
  obtain ⟨links, isLinks⟩ := Option.ne_none_iff_exists'.mp fun none => by simp [recorded.mp none] at found
  obtain ⟨path, isPath, walks⟩ := back links isLinks
  obtain rfl : [3, 1, 0] = path := Option.some.inj (found.symm.trans isPath)
  exact ⟨checked, found, (fewest _ found).2.1, unreached, links, isLinks, walks⟩

/-! ### Paths of lines -/

variable {line seed : LineId}

/-- The node of the second line is a predecessor of that of the first. -/
def Joins (g : SliceGraph) (line pred : LineId) : Prop :=
  ∃ i j : Nat, g.lookup? line = some i ∧ g.lookup? pred = some j ∧ g.Pred i j

/-- A path along predecessors to the first node stays inside the graph. -/
theorem reach_of_path {id : Int} (some : 0 < g.nodes.size) (path : Relation.ReflTransGen g.Pred id 0) :
    Relation.ReflTransGen (Graph.Enters g.next g.ids) id.toNat 0 := by
  induction path using Relation.ReflTransGen.head_induction_on with
  | refl => exact .refl
  | @head a b pred further ih =>
    have live : g.Live b := by
      rcases further.cases_head with rfl | ⟨_, pred', _⟩
      · exact ⟨le_refl 0, by omega⟩
      · exact live_of_pred pred'
    have start := (live_of_pred pred).1
    refine .head (enters_iff.mpr ⟨?_, ?_⟩) ih
    · rwa [Int.toNat_of_nonneg start, Int.toNat_of_nonneg live.1]
    · have := live.1
      have := live.2
      omega

/-- A path of nodes is a path of lines. -/
theorem walk_lines {i j : Nat} {path : List Nat} (distinct : g.lines.Nodup) (first : g.lines[i]? = some line)
    (last : g.lines[j]? = some seed) (walk : Graph.Walk (Graph.Enters g.next g.ids) i j path) :
    Graph.Walk g.Joins line seed (path.filterMap fun i => g.lines[i]?) ∧
      (path.filterMap fun i => g.lines[i]?).length = path.length := by
  have each : ∀ (a b : Nat) (line : LineId), Graph.Enters g.next g.ids a b → g.lines[a]? = some line →
      ∃ line', g.lines[b]? = some line' ∧ g.Joins line line' := by
    intro a b line enters atA
    obtain ⟨pred, live⟩ := enters_iff.mp enters
    rw [← length_lines] at live
    have atB : g.lines[b]? = some g.lines[b] := List.getElem?_eq_getElem live
    refine ⟨g.lines[b], atB, a, b, ?_, ?_, pred⟩
    · exact (lookup?_eq_some_iff distinct).mpr atA
    · exact (lookup?_eq_some_iff distinct).mpr atB
  obtain ⟨lines, walk', pairs⟩ := walk.follow (fun i line => g.lines[i]? = some line) each
    (fun line atJ => Option.some.inj (atJ.symm.trans last)) first
  have same : path.filterMap (fun i => g.lines[i]?) = lines := by
    clear walk walk'
    induction pairs with
    | nil => rfl
    | cons atI _ ih => rw [List.filterMap_cons, atI, ih]
  rw [same]
  exact ⟨walk', pairs.length_eq.symm⟩

/-- A path of lines is a path of nodes. -/
theorem exists_walk_of_lines {i j : Nat} {lines : List LineId} (first : g.lookup? line = some i)
    (last : g.lookup? seed = some j) (walk : Graph.Walk g.Joins line seed lines) :
    ∃ path, Graph.Walk (Graph.Enters g.next g.ids) i j path ∧ path.length = lines.length := by
  have each : ∀ (a b : LineId) (i : Nat), g.Joins a b → g.lookup? a = some i →
      ∃ j, g.lookup? b = some j ∧ Graph.Enters g.next g.ids i j := by
    rintro a b i ⟨i', j, isFirst, isSecond, pred⟩ atA
    cases atA.symm.trans isFirst
    refine ⟨j, isSecond, enters_iff.mpr ⟨pred, ?_⟩⟩
    rw [lookup?, Array.findIdx?_eq_some_iff_getElem] at isSecond
    exact isSecond.1
  obtain ⟨path, walk', pairs⟩ := walk.follow (fun line i => g.lookup? line = some i) each
    (fun i atI => Option.some.inj (atI.symm.trans last)) first
  exact ⟨path, walk', pairs.length_eq.symm⟩

end SliceGraph

end SmaliTrace.Slice
