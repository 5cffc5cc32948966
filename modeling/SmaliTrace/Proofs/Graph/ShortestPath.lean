import Mathlib.Data.List.Chain
import Mathlib.Data.Nat.Find
import SmaliTrace.Proofs.Graph.BreadthFirst

/-!
The breadth-first walk finds shortest paths. It discovers nodes in the order of their distances, each from a
node that is one step nearer, so the trail back from a node has as many nodes as a path to it needs.
-/
namespace SmaliTrace.Graph

variable {α : Type} {next : α → List α} {nodes : List α} {a b target : α} {n : Nat}

/-! ### Walks and distances -/

/-- A list of nodes from the first to the last, along a relation. -/
structure Walk (step : α → α → Prop) (a target : α) (path : List α) : Prop where
  head : path.head? = some a
  last : path.getLast? = some target
  steps : path.IsChain step

namespace Walk

variable {step : α → α → Prop} {path : List α}

theorem single (step : α → α → Prop) (a : α) : Walk step a a [a] := ⟨rfl, rfl, .singleton a⟩

theorem cons (first : step a b) (walk : Walk step b target path) : Walk step a target (a :: path) := by
  obtain ⟨rest, rfl⟩ := List.head?_eq_some_iff.mp walk.head
  exact ⟨rfl, by simpa using walk.last, List.isChain_cons_cons.mpr ⟨first, walk.steps⟩⟩

theorem ne_nil (walk : Walk step a target path) : path ≠ [] := by
  rintro rfl
  simpa using walk.head

/-- A walk is its start alone, or a step and a walk. -/
theorem cases (walk : Walk step a target path) :
    (a = target ∧ path = [a]) ∨ ∃ b rest, step a b ∧ Walk step b target rest ∧ path = a :: rest := by
  obtain ⟨rest, rfl⟩ := List.head?_eq_some_iff.mp walk.head
  cases rest with
  | nil => exact .inl ⟨by simpa using walk.last, rfl⟩
  | cons b rest =>
    have steps := List.isChain_cons_cons.mp walk.steps
    exact .inr ⟨b, b :: rest, steps.1, ⟨rfl, by simpa using walk.last, steps.2⟩, rfl⟩

/-- Where every step is followed by a step between related nodes, a walk is followed by a walk. -/
theorem follow {β : Type} (related : α → β → Prop) {step' : β → β → Prop} {a' target' : β}
    (each : ∀ a b a', step a b → related a a' → ∃ b', related b b' ∧ step' a' b')
    (ends : ∀ a', related target a' → a' = target') (walk : Walk step a target path) (start : related a a') :
    ∃ path', Walk step' a' target' path' ∧ List.Forall₂ related path path' := by
  induction path generalizing a a' with
  | nil => simpa using walk.head
  | cons c path ih =>
    rcases walk.cases with ⟨rfl, same⟩ | ⟨b, rest, first, further, same⟩
    · cases same
      obtain rfl := ends a' start
      exact ⟨[a'], .single step' a', .cons start .nil⟩
    · cases same
      obtain ⟨b', start', first'⟩ := each c b a' first start
      obtain ⟨path', walk', pairs⟩ := ih further start'
      exact ⟨a' :: path', walk'.cons first', .cons start pairs⟩

end Walk

/-- A walk with the given number of steps leads from one node to the other. -/
def Steps (next : α → List α) (nodes : List α) (a : α) : Nat → α → Prop
  | 0, b => b = a
  | n + 1, b => ∃ p, Steps next nodes a n p ∧ Enters next nodes p b

/-- The least number of steps from one node to the other. -/
def Distance (next : α → List α) (nodes : List α) (a : α) (n : Nat) (b : α) : Prop :=
  Steps next nodes a n b ∧ ∀ m, Steps next nodes a m b → n ≤ m

/-- A walk has one node more than steps. -/
theorem Walk.steps_of {path : List α} {c : α} (walk : Walk (Enters next nodes) c target path)
    (start : Steps next nodes a n c) : ∃ m, path.length = m + 1 ∧ Steps next nodes a (n + m) target := by
  induction path generalizing c n with
  | nil => simpa using walk.head
  | cons e path ih =>
    rcases walk.cases with ⟨rfl, same⟩ | ⟨d, rest, first, further, same⟩
    · cases same
      exact ⟨0, rfl, start⟩
    · cases same
      obtain ⟨m, length, steps⟩ := ih (n := n + 1) further ⟨e, start, first⟩
      refine ⟨m + 1, by rw [List.length_cons, length], ?_⟩
      rwa [Nat.add_right_comm] at steps

theorem steps_of_reach (path : Relation.ReflTransGen (Enters next nodes) a b) : ∃ n, Steps next nodes a n b := by
  induction path with
  | refl => exact ⟨0, rfl⟩
  | tail _ enters ih =>
    obtain ⟨n, steps⟩ := ih
    exact ⟨n + 1, _, steps, enters⟩

/-- A proper path is a walk of at least one step. -/
theorem transGen_enters_iff : Relation.TransGen (Enters next nodes) a b ↔ ∃ n, Steps next nodes a (n + 1) b := by
  constructor
  · intro path
    obtain ⟨p, before, enters⟩ := Relation.TransGen.tail'_iff.mp path
    obtain ⟨n, steps⟩ := steps_of_reach before
    exact ⟨n, p, steps, enters⟩
  · rintro ⟨n, steps⟩
    induction n generalizing b with
    | zero =>
      obtain ⟨p, start, enters⟩ := steps
      cases start
      exact .single enters
    | succ n ih =>
      obtain ⟨p, before, enters⟩ := steps
      exact (ih before).tail enters

theorem exists_distance (steps : Steps next nodes a n b) : ∃ m, Distance next nodes a m b := by
  classical
  have reached : ∃ n, Steps next nodes a n b := ⟨n, steps⟩
  exact ⟨Nat.find reached, Nat.find_spec reached, fun m other => Nat.find_min' reached other⟩

namespace Distance

variable {m : Nat}

theorem self : Distance next nodes a 0 a := ⟨rfl, fun _ _ => Nat.zero_le _⟩

theorem unique (first : Distance next nodes a n b) (second : Distance next nodes a m b) : n = m :=
  Nat.le_antisymm (first.2 m second.1) (second.2 n first.1)

/-- On a shortest walk, the node before the last is one step nearer. -/
theorem exists_before (far : Distance next nodes a (n + 1) b) :
    ∃ p, Distance next nodes a n p ∧ Enters next nodes p b := by
  obtain ⟨p, steps, enters⟩ := far.1
  refine ⟨p, ⟨steps, fun m fewer => ?_⟩, enters⟩
  have := far.2 (m + 1) ⟨p, fewer, enters⟩
  omega

theorem mem_nodes (far : Distance next nodes a (n + 1) b) : b ∈ nodes := by
  obtain ⟨p, _, enters⟩ := far.exists_before
  exact enters.2

end Distance

/-! ### The order of discovery -/

/-- The state of a breadth-first walk from `a`: the front of its queue is at one distance and the back at the
next, and what is not seen yet is further away or one step behind the front. -/
structure Layered (next : α → List α) (nodes : List α) (a : α) (k : Nat) (front back unseen : List α) : Prop where
  nearer : ∀ b ∈ front, Distance next nodes a k b
  further : ∀ b ∈ back, Distance next nodes a (k + 1) b
  inside : ∀ b ∈ unseen, b ∈ nodes
  seen : ∀ b ∈ back, b ∉ unseen
  near : ∀ b m, Distance next nodes a m b → m ≤ k → b ∉ unseen
  behind : ∀ b, Distance next nodes a (k + 1) b → b ∈ back ∨ (b ∈ unseen ∧ ∃ f ∈ front, Enters next nodes f b)
  far : ∀ b m, Distance next nodes a m b → k + 1 < m → b ∈ unseen

namespace Layered

variable {k : Nat} {front back unseen : List α}

/-- When the front is used up, the back is the new front. -/
theorem shift (layered : Layered next nodes a k [] back unseen) : Layered next nodes a (k + 1) back [] unseen := by
  have layer : ∀ b, Distance next nodes a (k + 1) b → b ∈ back := by
    intro b far
    rcases layered.behind b far with inside | ⟨_, f, none, _⟩
    · exact inside
    · simp at none
  refine ⟨layered.further, by simp, layered.inside, by simp, fun b m far le => ?_, fun b far => .inr ⟨?_, ?_⟩, ?_⟩
  · by_cases last : m = k + 1
    · subst last
      exact layered.seen b (layer b far)
    · exact layered.near b m far (by omega)
  · exact layered.far b (k + 1 + 1) far (by omega)
  · obtain ⟨p, nearer, enters⟩ := far.exists_before
    exact ⟨p, layer p nearer, enters⟩
  · exact fun b m far later => layered.far b m far (by omega)

/-- The first node of the queue is the first of a front, once an empty front is replaced by the back. -/
theorem exists_front {f : α} {queue : List α} (layered : Layered next nodes a k front back unseen)
    (isQueue : f :: queue = front ++ back) :
    ∃ k front back, Layered next nodes a k (f :: front) back unseen ∧ queue = front ++ back := by
  cases front with
  | nil =>
    cases back with
    | nil => simp at isQueue
    | cons g back =>
      obtain ⟨rfl, rfl⟩ : f = g ∧ queue = back := by simpa using isQueue
      exact ⟨k + 1, queue, [], layered.shift, by simp⟩
  | cons g front =>
    obtain ⟨rfl, rfl⟩ : f = g ∧ queue = front ++ back := by simpa using isQueue
    exact ⟨k, front, back, layered, rfl⟩

variable [DecidableEq α]

/-- What the first node of the front discovers is one step further than the front. -/
theorem distance_of_mem_discovered {f : α} (layered : Layered next nodes a k (f :: front) back unseen)
    (found : b ∈ discovered next unseen f) : Distance next nodes a (k + 1) b ∧ Enters next nodes f b := by
  obtain ⟨follows, fresh⟩ := mem_discovered.mp found
  have enters : Enters next nodes f b := ⟨follows, layered.inside b fresh⟩
  have start := layered.nearer f (by simp)
  refine ⟨⟨⟨f, start.1, enters⟩, fun m steps => ?_⟩, enters⟩
  obtain ⟨least, distance⟩ := exists_distance steps
  have := distance.2 m steps
  by_contra fewer
  exact layered.near b least distance (by omega) fresh

theorem advance {f : α} (layered : Layered next nodes a k (f :: front) back unseen) :
    Layered next nodes a k front (back ++ discovered next unseen f)
      (remaining unseen (discovered next unseen f)) where
  nearer b inside := layered.nearer b (by simp [inside])
  further b inside := by
    rcases List.mem_append.mp inside with old | new
    · exact layered.further b old
    · exact (layered.distance_of_mem_discovered new).1
  inside b fresh := layered.inside b (mem_remaining.mp fresh).1
  seen b inside fresh := by
    obtain ⟨fresh, missed⟩ := mem_remaining.mp fresh
    rcases List.mem_append.mp inside with old | new
    · exact layered.seen b old fresh
    · exact missed new
  near b m far le fresh := layered.near b m far le (mem_remaining.mp fresh).1
  behind b far := by
    by_cases found : b ∈ discovered next unseen f
    · exact .inl (List.mem_append_right back found)
    rcases layered.behind b far with old | ⟨fresh, p, inside, enters⟩
    · exact .inl (List.mem_append_left _ old)
    · refine .inr ⟨mem_remaining.mpr ⟨fresh, found⟩, p, ?_, enters⟩
      rcases List.mem_cons.mp inside with rfl | inside
      · exact absurd (mem_discovered.mpr ⟨enters.1, fresh⟩) found
      · exact inside
  far b m far later := by
    refine mem_remaining.mpr ⟨layered.far b m far later, fun found => ?_⟩
    have := (layered.distance_of_mem_discovered found).1.unique far
    omega

/-- Every edge of the walk leads one step further. -/
theorem distance_of_mem_searchTree {queue : List α} {p : α} (layered : Layered next nodes a k front back unseen)
    (isQueue : queue = front ++ back) (edge : (b, p) ∈ searchTree next unseen queue) :
    ∃ m, Distance next nodes a m p ∧ Distance next nodes a (m + 1) b ∧ Enters next nodes p b := by
  induction unseen, queue using searchTree.induct next generalizing k front back with
  | case1 unseen => simp [searchTree] at edge
  | case2 unseen f queue found =>
    rename_i ih
    obtain ⟨k, front, back, layered, rfl⟩ := layered.exists_front isQueue
    rw [searchTree, List.mem_append] at edge
    rcases edge with here | later
    · obtain ⟨c, isFound, same⟩ := List.mem_map.mp here
      cases same
      obtain ⟨far, enters⟩ := layered.distance_of_mem_discovered isFound
      exact ⟨k, layered.nearer p (by simp), far, enters⟩
    · exact ih layered.advance (List.append_assoc front back _) later

/-- What the walk still comes to is further away than the front. -/
theorem exists_distance_of_mem_breadthFirst (layered : Layered next nodes a k front back unseen)
    (found : b ∈ breadthFirst next unseen (front ++ back)) : ∃ n, Distance next nodes a n b ∧ k < n := by
  obtain ⟨⟨b, p⟩, edge, rfl⟩ := List.mem_map.mp found
  obtain ⟨m, _, far, _⟩ := layered.distance_of_mem_searchTree rfl edge
  refine ⟨m + 1, far, ?_⟩
  by_contra near
  exact layered.near b (m + 1) far (by omega) (mem_unseen_of_mem_breadthFirst found)

/-- The walk comes to nearer nodes first. -/
theorem pairwise_breadthFirst {queue : List α} (layered : Layered next nodes a k front back unseen)
    (isQueue : queue = front ++ back) : (breadthFirst next unseen queue).Pairwise fun b c =>
      ∃ m n, Distance next nodes a m b ∧ Distance next nodes a n c ∧ m ≤ n := by
  induction unseen, queue using searchTree.induct next generalizing k front back with
  | case1 unseen => simp [breadthFirst, searchTree]
  | case2 unseen f queue found =>
    rename_i ih
    obtain ⟨k, front, back, layered, rfl⟩ := layered.exists_front isQueue
    -- what the first node discovers is one step behind the front, and nothing later is nearer
    rw [breadthFirst_cons, List.pairwise_append]
    refine ⟨?_, ih layered.advance (List.append_assoc front back _), ?_⟩
    · refine List.pairwise_of_forall_mem_list fun b first c second => ?_
      have far := (layered.distance_of_mem_discovered first).1
      have far' := (layered.distance_of_mem_discovered second).1
      exact ⟨k + 1, k + 1, far, far', Nat.le_refl _⟩
    · intro b here c later
      have far := (layered.distance_of_mem_discovered here).1
      rw [List.append_assoc] at later
      obtain ⟨n, far', further⟩ := layered.advance.exists_distance_of_mem_breadthFirst later
      exact ⟨k + 1, n, far, far', further⟩

end Layered

theorem layered_start [DecidableEq α] (distinct : nodes.Nodup) :
    Layered next nodes a 0 [a] [] (nodes.erase a) where
  nearer b inside := by
    obtain rfl := List.mem_singleton.mp inside
    exact .self
  further b inside := by simp at inside
  inside b inside := List.mem_of_mem_erase inside
  seen b inside := by simp at inside
  near b m far le := by
    obtain rfl : m = 0 := by omega
    obtain rfl : b = a := far.1
    exact distinct.not_mem_erase
  behind b far := by
    have other : b ≠ a := by
      rintro rfl
      have := far.unique .self
      omega
    obtain ⟨p, start, enters⟩ := far.exists_before
    obtain rfl : p = a := start.1
    exact .inr ⟨(List.mem_erase_of_ne other).mpr enters.2, p, by simp, enters⟩
  far b m far later := by
    have other : b ≠ a := by
      rintro rfl
      have := far.unique .self
      omega
    obtain ⟨m, rfl⟩ : ∃ n, m = n + 1 := ⟨m - 1, by omega⟩
    exact (List.mem_erase_of_ne other).mpr far.mem_nodes

/-! ### The trail back -/

/-- The edges hang together: each starts at a known node, or where an earlier one ends. -/
def Rooted (known : List α) : List (α × α) → Prop
  | [] => True
  | (b, p) :: edges => p ∈ known ∧ Rooted (b :: known) edges

theorem rooted_append_singleton {known : List α} {edges : List (α × α)} {p : α} :
    Rooted known (edges ++ [(b, p)]) ↔ Rooted known edges ∧ (p ∈ known ∨ p ∈ edges.map Prod.fst) := by
  induction edges generalizing known with
  | nil => simp [Rooted]
  | cons edge edges ih =>
    simp only [List.cons_append, Rooted, ih, List.mem_cons, List.map_cons, and_assoc]
    refine and_congr_right fun _ => and_congr_right fun _ => ?_
    rw [or_left_comm, or_assoc]

variable [DecidableEq α]

theorem rooted_searchTree {unseen queue known : List α} (subset : queue ⊆ known) :
    Rooted known (searchTree next unseen queue) := by
  induction unseen, queue using searchTree.induct next generalizing known with
  | case1 unseen => rw [searchTree]; trivial
  | case2 unseen f queue found =>
    rename_i ih
    rw [searchTree]
    -- all edges from the first node come first, then those of the rest of the walk
    have first : ∀ (ends known : List α), f ∈ known → (queue ++ found) ⊆ (ends ++ known) →
        Rooted known (ends.map (·, f) ++ searchTree next (remaining unseen found) (queue ++ found)) := by
      intro ends
      induction ends with
      | nil => exact fun known _ subset => ih subset
      | cons e ends rest =>
        intro known isKnown subset
        refine ⟨isKnown, rest (e :: known) (List.mem_cons_of_mem e isKnown) fun b inside => ?_⟩
        have listed := subset inside
        simp only [List.cons_append, List.mem_cons, List.mem_append] at listed ⊢
        rcases listed with same | old | old
        · exact .inr (.inl same)
        · exact .inl old
        · exact .inr (.inr old)
    refine first found known (subset (by simp)) fun b inside => ?_
    rcases List.mem_append.mp inside with waits | new
    · exact List.mem_append_right found (subset (by simp [waits]))
    · exact List.mem_append_left known new

/-- The trail from a node leads back to the start, with as many nodes as its distance says. -/
theorem walk_trail {edges : List (α × α)} {path : List α} (rooted : Rooted [a] edges)
    (forward : ∀ b p, (b, p) ∈ edges → ∃ m, Distance next nodes a m p ∧ Distance next nodes a (m + 1) b ∧
      Enters next nodes p b)
    (reached : b = a ∨ b ∈ edges.map Prod.fst) (far : Distance next nodes a n b)
    (walk : Walk (Enters next nodes) b target path) :
    Walk (Enters next nodes) a target (trail edges.reverse b path) ∧
      (trail edges.reverse b path).length = n + path.length := by
  induction edges using List.reverseRecOn generalizing b n path with
  | nil =>
    obtain rfl : b = a := by simpa using reached
    obtain rfl := far.unique .self
    simpa [trail] using walk
  | append_singleton edges edge ih =>
    obtain ⟨c, p⟩ := edge
    obtain ⟨rooted', parent⟩ := rooted_append_singleton.mp rooted
    have forward' : ∀ b p, (b, p) ∈ edges → ∃ m, Distance next nodes a m p ∧ Distance next nodes a (m + 1) b ∧
        Enters next nodes p b := fun b p inside => forward b p (by simp [inside])
    rw [List.reverse_append, List.reverse_singleton, List.singleton_append, trail]
    by_cases here : c = b
    · subst here
      obtain ⟨m, nearer, far', enters⟩ := forward c p (by simp)
      obtain rfl := far.unique far'
      obtain ⟨walk', length⟩ := ih rooted' forward' (by simpa using parent) nearer (walk.cons enters)
      simp only [if_true]
      refine ⟨walk', length.trans ?_⟩
      simp only [List.length_cons]
      omega
    · simp only [here, if_false]
      refine ih rooted' forward' ?_ far walk
      rcases reached with start | inside
      · exact .inl start
      · refine .inr ?_
        rw [List.map_append, List.mem_append] at inside
        rcases inside with old | last
        · exact old
        · exact absurd (by simpa using last) (Ne.symm here)

/-! ### Shortest paths -/

/-- Where a path leads, a path with the fewest nodes is found. -/
theorem shortestPath?_of_reach (distinct : nodes.Nodup) (inside : a ∈ nodes)
    (path : Relation.ReflTransGen (Enters next nodes) a target) :
    ∃ shortest, shortestPath? next nodes a target = some shortest ∧ Walk (Enters next nodes) a target shortest ∧
      ∀ other, Walk (Enters next nodes) a target other → shortest.length ≤ other.length := by
  have fewest : ∀ {n : Nat} {other : List α}, Distance next nodes a n target →
      Walk (Enters next nodes) a target other → n + 1 ≤ other.length := by
    intro n other far walk
    obtain ⟨m, length, steps⟩ := walk.steps_of (n := 0) rfl
    have least := far.2 _ steps
    omega
  by_cases same : a = target
  · subst same
    refine ⟨[a], by simp [shortestPath?, inside], .single _ a, fun other walk => ?_⟩
    simpa using fewest .self walk
  · have proper : Relation.TransGen (Enters next nodes) a target :=
      (Relation.reflTransGen_iff_eq_or_transGen.mp path).resolve_left (Ne.symm same)
    obtain ⟨_, _, enters⟩ := Relation.TransGen.tail'_iff.mp proper
    have found : target ∈ (searchTree next (nodes.erase a) [a]).map Prod.fst :=
      (mem_breadthFirst_erase_iff distinct).mpr ⟨Ne.symm same, proper⟩
    obtain ⟨n, steps⟩ := steps_of_reach path
    obtain ⟨n, far⟩ := exists_distance steps
    obtain ⟨walk, length⟩ := walk_trail (rooted_searchTree (List.Subset.refl [a]))
      (fun b p edge => (layered_start distinct).distance_of_mem_searchTree rfl edge) (.inr found) far (.single _ target)
    have listed : (searchTree next (nodes.erase a) [a]).any (fun edge => edge.1 = target) = true := by
      obtain ⟨edge, isEdge, same⟩ := List.mem_map.mp found
      exact List.any_eq_true.mpr ⟨edge, isEdge, by simpa using same⟩
    have both : ¬(a ∉ nodes ∨ target ∉ nodes) := by simp [inside, enters.2]
    refine ⟨trail (searchTree next (nodes.erase a) [a]).reverse target [target], ?_, walk, fun other walk' => ?_⟩
    · rw [shortestPath?, if_neg both, if_neg same]
      exact if_pos listed
    · rw [length]
      exact fewest far walk'

end SmaliTrace.Graph
