import SmaliTrace.Proofs.Graph.ShortestPath

/-!
The way back from the target of a breadth-first search. The search stops when the target leaves its queue, and the
path is read off the links that it has recorded by then, from the target on. This walk back meets a link at every
node but the start and ends there, with the shortest path that the search as a whole gives.
-/
namespace SmaliTrace.Graph

variable {α : Type} {links edges later : List (α × α)}

theorem rooted_of_append {known : List α} (rooted : Rooted known (edges ++ later)) : Rooted known edges := by
  induction edges generalizing known with
  | nil => trivial
  | cons edge edges ih => exact ⟨rooted.1, ih rooted.2⟩

variable [DecidableEq α] {next : α → List α} {nodes unseen queue path : List α} {a b target : α}

/-- The links from nodes to those they were reached from, as they are recorded when the target leaves the queue.
There are none to walk back if the queue is used up before. -/
def linksTo? (next : α → List α) (target : α) (unseen queue : List α) : Option (List (α × α)) :=
  match queue with
  | [] => none
  | a :: queue =>
    if a = target then some []
    else
      let found := discovered next unseen a
      (linksTo? next target (remaining unseen found) (queue ++ found)).map (found.map (·, a) ++ ·)
termination_by (unseen.length, queue.length)
decreasing_by
  by_cases none : discovered next unseen a = []
  · rw [none, remaining_nil]
    apply Prod.Lex.right
    simp
  · exact Prod.Lex.left _ _ (length_remaining_lt none)

/-- The walk back from a node along the links to `start`, with the path behind the node and the whole path at the
end. A node without a link stops it short of an end. -/
inductive WalksBack (links : List (α × α)) (start : α) : α → List α → List α → Prop
  | done (path : List α) : WalksBack links start start path (start :: path)
  | back {b parent path whole} : b ≠ start → links.lookup b = some parent →
      WalksBack links start parent (b :: path) whole → WalksBack links start b path whole

/-! ### What is recorded -/

theorem linksTo?_eq_none_iff :
    linksTo? next target unseen queue = none ↔ target ∉ queue ∧ target ∉ breadthFirst next unseen queue := by
  induction unseen, queue using linksTo?.induct next target with
  | case1 unseen => simp [linksTo?, breadthFirst, searchTree]
  | case2 unseen queue => simp [linksTo?]
  | case3 unseen a queue other found =>
    rename_i ih
    rw [linksTo?, if_neg other, Option.map_eq_none_iff, ih, breadthFirst_cons]
    simp only [List.mem_append, List.mem_cons, not_or]
    constructor
    · rintro ⟨⟨waits, fresh⟩, further⟩
      exact ⟨⟨Ne.symm other, waits⟩, fresh, further⟩
    · rintro ⟨⟨_, waits⟩, fresh, further⟩
      exact ⟨⟨waits, fresh⟩, further⟩

/-- The links are the first edges of the whole search, up to one from the target at least. -/
theorem exists_append_of_linksTo? (recorded : linksTo? next target unseen queue = some links) :
    (∃ later, searchTree next unseen queue = links ++ later) ∧
      (target ∈ queue ∨ target ∈ links.map Prod.fst) := by
  induction unseen, queue using linksTo?.induct next target generalizing links with
  | case1 unseen => simp [linksTo?] at recorded
  | case2 unseen queue => exact ⟨by simp_all [linksTo?], .inl List.mem_cons_self⟩
  | case3 unseen a queue other found =>
    rename_i ih
    rw [linksTo?, if_neg other, Option.map_eq_some_iff] at recorded
    obtain ⟨rest, isRest, rfl⟩ := recorded
    obtain ⟨⟨later, tree⟩, reached⟩ := ih isRest
    refine ⟨⟨later, by rw [searchTree, tree, List.append_assoc]⟩, ?_⟩
    rw [List.map_append, List.map_map]
    simp only [List.mem_append, List.mem_cons] at reached ⊢
    rcases reached with (waits | fresh) | linked
    · exact .inl (.inr waits)
    · exact .inr (.inl (by simpa [Function.comp_def] using fresh))
    · exact .inr (.inr linked)

theorem lookup_of_mem (distinct : (links.map Prod.fst).Nodup) (listed : (a, b) ∈ links) :
    links.lookup a = some b := by
  obtain ⟨before, behind, rfl⟩ := List.append_of_mem listed
  refine List.lookup_eq_some_iff.mpr ⟨before, behind, rfl, fun link earlier => ?_⟩
  rw [List.map_append, List.nodup_append] at distinct
  have apart := distinct.2.2 link.1 (List.mem_map_of_mem earlier) a (by simp)
  simpa using Ne.symm apart

/-! ### The walk back -/

theorem WalksBack.unique {whole whole' : List α} (walk : WalksBack links a b path whole)
    (walk' : WalksBack links a b path whole') : whole = whole' := by
  induction walk with
  | done path =>
    cases walk' with
    | done => rfl
    | back other => exact absurd rfl other
  | back other linked _ ih =>
    cases walk' with
    | done => exact absurd rfl other
    | back _ linked' further =>
      cases linked.symm.trans linked'
      exact ih further

/-- The walk back does what the trail does that goes once over the edges, from the last one on. -/
theorem walksBack_trail (listed : edges ⊆ links) (distinct : (links.map Prod.fst).Nodup)
    (root : a ∉ links.map Prod.fst) (rooted : Rooted [a] edges) (reached : b = a ∨ b ∈ edges.map Prod.fst) :
    WalksBack links a b path (trail edges.reverse b (b :: path)) := by
  induction edges using List.reverseRecOn generalizing b path with
  | nil =>
    obtain rfl : b = a := by simpa using reached
    exact .done path
  | append_singleton edges edge ih =>
    obtain ⟨c, p⟩ := edge
    obtain ⟨rooted', parent⟩ := rooted_append_singleton.mp rooted
    have listed' : edges ⊆ links := fun edge inside => listed (List.mem_append_left _ inside)
    rw [List.reverse_append, List.reverse_singleton, List.singleton_append, trail]
    by_cases here : c = b
    · subst here
      have isLink : (c, p) ∈ links := listed (by simp)
      have other : c ≠ a := by
        rintro rfl
        exact root (List.mem_map.mpr ⟨(c, p), isLink, rfl⟩)
      rw [if_pos rfl]
      exact .back other (lookup_of_mem distinct isLink) (ih listed' rooted' (by simpa using parent))
    · rw [if_neg here]
      refine ih listed' rooted' ?_
      rcases reached with start | inside
      · exact .inl start
      · rw [List.map_append, List.mem_append] at inside
        rcases inside with old | last
        · exact .inr old
        · exact absurd (by simpa using last) (Ne.symm here)

/-- Edges of other nodes, recorded later, do not matter to the trail. -/
theorem trail_append (absent : b ∉ later.map Prod.fst) :
    trail (later.reverse ++ edges) b path = trail edges b path := by
  induction later using List.reverseRecOn with
  | nil => rfl
  | append_singleton later edge ih =>
    rw [List.map_append, List.mem_append, not_or] at absent
    have other : edge.1 ≠ b := by
      rintro rfl
      simp at absent
    rw [List.reverse_append, List.reverse_singleton, List.singleton_append, List.cons_append, trail, if_neg other]
    exact ih absent.1

theorem shortestPath?_eq_none_iff (start : a ∈ nodes) (last : target ∈ nodes) :
    shortestPath? next nodes a target = none ↔ a ≠ target ∧ target ∉ breadthFirst next (nodes.erase a) [a] := by
  rw [shortestPath?, if_neg (by simp [start, last])]
  by_cases same : a = target
  · simp [same]
  · rw [if_neg same]
    simp [breadthFirst, same]

/-- No path is given exactly if none leads to the target. -/
theorem shortestPath?_eq_none_iff_not_reach (distinct : nodes.Nodup) (start : a ∈ nodes) (last : target ∈ nodes) :
    shortestPath? next nodes a target = none ↔ ¬ Relation.ReflTransGen (Enters next nodes) a target := by
  rw [shortestPath?_eq_none_iff start last, mem_breadthFirst_erase_iff distinct,
    Relation.reflTransGen_iff_eq_or_transGen]
  constructor
  · rintro ⟨other, unreached⟩ (same | path)
    · exact other same.symm
    · exact unreached ⟨Ne.symm other, path⟩
  · intro unreached
    rw [not_or] at unreached
    exact ⟨fun same => unreached.1 same.symm, fun reached => unreached.2 reached.2⟩

/-- The search that stops at the target has no links to give exactly if there is no path; else the walk back along
its links ends at the start, with the shortest path. -/
theorem walksBack_of_linksTo? (distinct : nodes.Nodup) (start : a ∈ nodes) (last : target ∈ nodes) :
    (linksTo? next target (nodes.erase a) [a] = none ↔ shortestPath? next nodes a target = none) ∧
      ∀ links, linksTo? next target (nodes.erase a) [a] = some links →
        ∃ path, shortestPath? next nodes a target = some path ∧
          ∀ whole, WalksBack links a target [] whole ↔ whole = path := by
  constructor
  · rw [linksTo?_eq_none_iff, shortestPath?_eq_none_iff start last, List.mem_singleton, eq_comm]
  · intro links recorded
    obtain ⟨⟨later, tree⟩, reached⟩ := exists_append_of_linksTo? recorded
    have found : (links.map Prod.fst ++ later.map Prod.fst).Nodup := by
      have := nodup_breadthFirst next (nodes.erase a) [a]
      rwa [breadthFirst, tree, List.map_append] at this
    have root : a ∉ links.map Prod.fst := by
      intro again
      have entered : a ∈ breadthFirst next (nodes.erase a) [a] := by
        rw [breadthFirst, tree, List.map_append]
        exact List.mem_append_left _ again
      exact distinct.not_mem_erase (mem_unseen_of_mem_breadthFirst entered)
    by_cases same : a = target
    · subst same
      refine ⟨[a], by simp [shortestPath?, start], fun whole => ⟨fun walk => walk.unique (.done []), ?_⟩⟩
      rintro rfl
      exact .done []
    · have linked : target ∈ links.map Prod.fst := by simpa [Ne.symm same] using reached
      have unlinked : target ∉ later.map Prod.fst := fun inside =>
        (List.nodup_append.mp found).2.2 target linked target inside rfl
      have rooted : Rooted [a] links := by
        have whole : Rooted [a] (searchTree next (nodes.erase a) [a]) := rooted_searchTree (List.Subset.refl [a])
        rw [tree] at whole
        exact rooted_of_append whole
      have walk : WalksBack links a target [] (trail links.reverse target [target]) :=
        walksBack_trail (List.Subset.refl links) (List.nodup_append.mp found).1 root rooted (.inr linked)
      refine ⟨trail links.reverse target [target], ?_, fun whole => ⟨fun walk' => walk'.unique walk, ?_⟩⟩
      · have listed : (links ++ later).any (fun edge => edge.1 = target) = true := by
          obtain ⟨edge, isEdge, same⟩ := List.mem_map.mp linked
          exact List.any_eq_true.mpr ⟨edge, List.mem_append_left _ isEdge, by simpa using same⟩
        rw [shortestPath?, if_neg (by simp [start, last]), if_neg same]
        simp only [tree]
        rw [if_pos listed, List.reverse_append, trail_append unlinked]
      · rintro rfl
        exact walk

end SmaliTrace.Graph
