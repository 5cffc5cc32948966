import Mathlib.Data.Finset.Basic
import SmaliTrace.Proofs.Graph.ShortestPath

/-!
Simple paths. The enumeration gives every path without repetition once, in lexicographic order where the successors
of a node stand in order. A walk that keeps a single path and a single set of the nodes on it, and takes back what
it did to them when it leaves a node, finds the same paths in the same order.
-/
namespace SmaliTrace.Graph

variable {α : Type}

/-- A walk without repetition that comes back to its start is its start alone. -/
theorem Walk.eq_singleton {step : α → α → Prop} {a : α} {path : List α} (walk : Walk step a a path)
    (distinct : path.Nodup) : path = [a] := by
  rcases walk.cases with ⟨_, same⟩ | ⟨b, rest, _, further, rfl⟩
  · exact same
  · have again : a ∈ rest := List.mem_of_getLast? further.last
    exact absurd again (List.nodup_cons.mp distinct).1

/-- What holds of every node that a step leads to holds of all nodes of a walk but the first. -/
theorem Walk.holds_of_mem_tail {step : α → α → Prop} {P : α → Prop} (holds : ∀ a b, step a b → P b) {a target : α}
    {path : List α} (walk : Walk step a target path) : ∀ b ∈ path.tail, P b := by
  induction path generalizing a with
  | nil => simp
  | cons c path ih =>
    rcases walk.cases with ⟨_, same⟩ | ⟨b, rest, first, further, same⟩
    · cases same
      simp
    · cases same
      obtain ⟨rest, rfl⟩ := List.head?_eq_some_iff.mp further.head
      intro d inside
      rcases List.mem_cons.mp inside with rfl | later
      · exact holds _ _ first
      · exact ih further d later

/-- The state of a walk that enumerates paths: the path it is on, the nodes of this path, and what was found. -/
structure Exploration (α : Type) where
  path : List α := []
  onPath : Finset α := ∅
  found : List (List α) := []

namespace Exploration

/-- Keeps a copy of the path. -/
def keep (s : Exploration α) : Exploration α := { s with found := s.found ++ [s.path] }

/-- The state with more paths found. -/
def add (s : Exploration α) (paths : List (List α)) : Exploration α := { s with found := s.found ++ paths }

@[simp] theorem path_add (s : Exploration α) (paths : List (List α)) : (s.add paths).path = s.path := rfl

@[simp] theorem add_nil (s : Exploration α) : s.add [] = s := by simp [add]

@[simp] theorem add_add (s : Exploration α) (paths more : List (List α)) :
    (s.add paths).add more = s.add (paths ++ more) := by simp [add]

end Exploration

variable [DecidableEq α] {next : α → List α} {target a b : α} {unseen path : List α}

/-- The simple paths from the nodes of the list, one node after the other. -/
def pathsThrough (next : α → List α) (target : α) (unseen : List α) (todo : List α) : List (List α) :=
  todo.flatMap fun b => if b ∈ unseen then simplePaths next target (unseen.erase b) b else []

theorem simplePaths_target : simplePaths next target unseen target = [[target]] := by
  rw [simplePaths, if_pos rfl]

theorem simplePaths_of_ne (other : a ≠ target) :
    simplePaths next target unseen a = (pathsThrough next target unseen (next a)).map (a :: ·) := by
  rw [simplePaths, if_neg other, pathsThrough, List.map_flatMap]
  congr 1
  funext b
  split <;> simp

theorem pathsThrough_cons (todo : List α) :
    pathsThrough next target unseen (a :: todo) =
      (if a ∈ unseen then simplePaths next target (unseen.erase a) a else []) ++
        pathsThrough next target unseen todo := by
  rw [pathsThrough, List.flatMap_cons]
  rfl

theorem mem_pathsThrough {todo : List α} : path ∈ pathsThrough next target unseen todo ↔
    ∃ b ∈ todo, b ∈ unseen ∧ path ∈ simplePaths next target (unseen.erase b) b := by
  simp only [pathsThrough, List.mem_flatMap]
  refine exists_congr fun b => and_congr_right fun _ => ?_
  by_cases inside : b ∈ unseen <;> simp [inside]

/-! ### Members -/

/-- The paths that are given are the walks to the target without repetition through nodes that may be entered. -/
theorem mem_simplePaths_iff (distinct : unseen.Nodup) (entered : a ∉ unseen) :
    path ∈ simplePaths next target unseen a ↔
      Walk (fun a b => b ∈ next a) a target path ∧ path.Nodup ∧ ∀ b ∈ path.tail, b ∈ unseen := by
  induction unseen, a using simplePaths.induct target generalizing path with
  | case1 unseen =>
    rw [simplePaths_target, List.mem_singleton]
    constructor
    · rintro rfl
      exact ⟨.single _ target, List.nodup_singleton target, by simp⟩
    · rintro ⟨walk, simple, _⟩
      exact walk.eq_singleton simple
  | case2 unseen a other ih =>
    have behind : ∀ b ∈ unseen, ∀ rest, rest ∈ simplePaths next target (unseen.erase b) b ↔
        Walk (fun a b => b ∈ next a) b target rest ∧ rest.Nodup ∧ ∀ c ∈ rest.tail, c ∈ unseen.erase b :=
      fun b inside rest => ih b inside (distinct.erase b) distinct.not_mem_erase
    rw [simplePaths_of_ne other, List.mem_map]
    simp only [mem_pathsThrough]
    constructor
    · rintro ⟨rest, ⟨b, follows, inside, found⟩, rfl⟩
      obtain ⟨walk, simple, within⟩ := (behind b inside rest).mp found
      obtain ⟨rest, rfl⟩ := List.head?_eq_some_iff.mp walk.head
      have all : ∀ c ∈ b :: rest, c ∈ unseen := by
        intro c member
        rcases List.mem_cons.mp member with rfl | later
        · exact inside
        · exact List.mem_of_mem_erase (within c later)
      exact ⟨walk.cons follows, List.nodup_cons.mpr ⟨fun again => entered (all a again), simple⟩, all⟩
    · rintro ⟨walk, simple, within⟩
      rcases walk.cases with ⟨same, _⟩ | ⟨b, rest, follows, further, rfl⟩
      · exact absurd same other
      · obtain ⟨rest, rfl⟩ := List.head?_eq_some_iff.mp further.head
        have simple := (List.nodup_cons.mp simple).2
        have inside : b ∈ unseen := within b (by simp)
        refine ⟨b :: rest, ⟨b, follows, inside, (behind b inside _).mpr ⟨further, simple, ?_⟩⟩, rfl⟩
        intro c later
        have apart : c ≠ b := by
          rintro rfl
          exact (List.nodup_cons.mp simple).1 later
        exact (List.mem_erase_of_ne apart).mpr (within c (List.mem_cons_of_mem b later))

/-! ### Order -/

theorem exists_eq_cons_of_mem_simplePaths (found : path ∈ simplePaths next target unseen a) :
    ∃ rest, path = a :: rest := by
  by_cases arrived : a = target
  · subst arrived
    rw [simplePaths_target, List.mem_singleton] at found
    exact ⟨[], found⟩
  · rw [simplePaths_of_ne arrived] at found
    obtain ⟨rest, _, rfl⟩ := List.mem_map.mp found
    exact ⟨rest, rfl⟩

/-- Where the successors of every node stand in order, the paths stand in lexicographic order. -/
theorem pairwise_simplePaths {before : α → α → Prop} (sorted : ∀ a, (next a).Pairwise before) :
    (simplePaths next target unseen a).Pairwise (List.Lex before) := by
  induction unseen, a using simplePaths.induct target with
  | case1 unseen =>
    rw [simplePaths_target]
    exact List.pairwise_singleton _ _
  | case2 unseen a other ih =>
    rw [simplePaths_of_ne other, List.pairwise_map]
    suffices behind : (pathsThrough next target unseen (next a)).Pairwise (List.Lex before) from behind.imp .cons
    rw [pathsThrough, List.pairwise_flatMap]
    constructor
    · intro b _
      split
      · next inside => exact ih b inside
      · exact .nil
    · -- paths from different successors differ in their first node
      refine (sorted a).imp fun earlier => ?_
      intro first isFirst second isSecond
      split at isFirst
      · split at isSecond
        · obtain ⟨_, rfl⟩ := exists_eq_cons_of_mem_simplePaths isFirst
          obtain ⟨_, rfl⟩ := exists_eq_cons_of_mem_simplePaths isSecond
          exact .rel earlier
        · simp at isSecond
      · simp at isFirst

/-! ### A walk that shares its path -/

namespace Exploration

/-- Puts a node at the end of the path. -/
def enter (s : Exploration α) (a : α) : Exploration α := { s with path := s.path ++ [a], onPath := insert a s.onPath }

/-- Takes a node back from the end of the path. -/
def leave (s : Exploration α) (a : α) : Exploration α := { s with path := s.path.dropLast, onPath := s.onPath.erase a }

/-- Leaving a node undoes entering it, and leaves alone what was found in between. -/
theorem leave_add_enter {s : Exploration α} (fresh : a ∉ s.onPath) (paths : List (List α)) :
    ((s.enter a).add paths).leave a = s.add paths := by
  simp [leave, add, enter, fresh]

theorem keep_enter (s : Exploration α) : (s.enter a).keep = (s.enter a).add [s.path ++ [a]] := rfl

/-- The nodes that may be entered are those that are not on the path. -/
def Leaves (s : Exploration α) (nodes unseen : List α) : Prop := unseen.Nodup ∧ ∀ b ∈ nodes, b ∈ unseen ↔ b ∉ s.onPath

theorem Leaves.enter {s : Exploration α} {nodes : List α} (leaves : s.Leaves nodes unseen) (a : α) :
    (s.enter a).Leaves nodes (unseen.erase a) := by
  refine ⟨leaves.1.erase a, fun b isNode => ?_⟩
  rw [leaves.1.mem_erase_iff, leaves.2 b isNode]
  simp [Exploration.enter, not_or]

/-- Behind a node that is on the path, the simple paths are those that begin with the node. -/
theorem map_enter_pathsThrough (s : Exploration α) (other : a ≠ target) :
    (pathsThrough next target unseen (next a)).map ((s.enter a).path ++ ·) =
      (simplePaths next target unseen a).map (s.path ++ ·) := by
  rw [simplePaths_of_ne other, List.map_map]
  simp [enter, Function.comp_def]

end Exploration

/-- The walk through the nodes of a list, one after the other, from one state to another: a node on the path is
passed over, the target ends a path, and any other node is entered, searched, and left. -/
inductive Explores (next : α → List α) (target : α) : Exploration α → List α → Exploration α → Prop
  | done (s) : Explores next target s [] s
  | pass {s s' a todo} : a ∈ s.onPath → Explores next target s todo s' → Explores next target s (a :: todo) s'
  | arrive {s s' todo} : target ∉ s.onPath → Explores next target ((s.enter target).keep.leave target) todo s' →
      Explores next target s (target :: todo) s'
  | search {s t s' a todo} : a ∉ s.onPath → a ≠ target → Explores next target (s.enter a) (next a) t →
      Explores next target (t.leave a) todo s' → Explores next target s (a :: todo) s'

variable {nodes todo : List α} {s s' : Exploration α}

/-- However the walk goes, it ends with its path and its set as they were, and with the paths of the enumeration
behind those that were found before. -/
theorem Explores.eq (walk : Explores next target s todo s') (closed : ∀ a ∈ nodes, ∀ b ∈ next a, b ∈ nodes)
    (inside : ∀ a ∈ todo, a ∈ nodes) (leaves : s.Leaves nodes unseen) :
    s' = s.add ((pathsThrough next target unseen todo).map (s.path ++ ·)) := by
  induction walk generalizing unseen with
  | done s => simp [pathsThrough]
  | @pass s s' a todo onPath _ ih =>
    have entered : a ∉ unseen := fun waits => (leaves.2 a (inside a List.mem_cons_self)).mp waits onPath
    rw [ih (fun b later => inside b (List.mem_cons_of_mem a later)) leaves, pathsThrough_cons, if_neg entered,
      List.nil_append]
  | @arrive s s' todo fresh _ ih =>
    have waits : target ∈ unseen := (leaves.2 target (inside target List.mem_cons_self)).mpr fresh
    rw [Exploration.keep_enter, Exploration.leave_add_enter fresh] at ih
    rw [ih (fun b later => inside b (List.mem_cons_of_mem target later)) leaves, pathsThrough_cons, if_pos waits,
      simplePaths_target]
    simp
  | @search s t s' a todo fresh other _ _ behind rest =>
    have isNode := inside a List.mem_cons_self
    have waits : a ∈ unseen := (leaves.2 a isNode).mpr fresh
    obtain rfl := behind (closed a isNode) (leaves.enter a)
    rw [Exploration.leave_add_enter fresh, s.map_enter_pathsThrough other] at rest
    rw [rest (fun b later => inside b (List.mem_cons_of_mem a later)) leaves, pathsThrough_cons, if_pos waits]
    simp

/-- The walk ends: with every node that is put on its path, there are fewer that may be entered. -/
theorem exists_explores (closed : ∀ a ∈ nodes, ∀ b ∈ next a, b ∈ nodes) (inside : ∀ a ∈ todo, a ∈ nodes)
    (leaves : s.Leaves nodes unseen) : ∃ s', Explores next target s todo s' := by
  induction length : unseen.length using Nat.strongRecOn generalizing unseen s todo with
  | _ n ih =>
  induction todo generalizing s with
  | nil => exact ⟨s, .done s⟩
  | cons a todo rest =>
    have isNode := inside a List.mem_cons_self
    have later : ∀ b ∈ todo, b ∈ nodes := fun b member => inside b (List.mem_cons_of_mem a member)
    by_cases onPath : a ∈ s.onPath
    · obtain ⟨s', walk⟩ := rest later leaves
      exact ⟨s', .pass onPath walk⟩
    by_cases arrived : a = target
    · subst arrived
      obtain ⟨s', walk⟩ := rest (s := s.add [s.path ++ [a]]) later leaves
      refine ⟨s', .arrive onPath ?_⟩
      rwa [Exploration.keep_enter, Exploration.leave_add_enter onPath]
    · have waits : a ∈ unseen := (leaves.2 a isNode).mpr onPath
      have fewer : (unseen.erase a).length < n := by
        have := List.length_erase_of_mem waits
        have := List.length_pos_of_mem waits
        omega
      obtain ⟨t, behind⟩ := ih _ fewer (closed a isNode) (leaves.enter a) rfl
      obtain rfl := behind.eq closed (closed a isNode) (leaves.enter a)
      obtain ⟨s', walk⟩ := rest (s := s.add _) later leaves
      refine ⟨s', .search onPath arrived behind ?_⟩
      rwa [Exploration.leave_add_enter onPath]

/-- From a node, with nothing on the path, the walk finds all simple paths and ends as it began. -/
theorem explores_iff (closed : ∀ a ∈ nodes, ∀ b ∈ next a, b ∈ nodes) (distinct : nodes.Nodup) (start : a ∈ nodes)
    (last : target ∈ nodes) : Explores next target {} [a] s' ↔ s' = { found := allPaths next nodes a target } := by
  have leaves : Exploration.Leaves {} nodes nodes := ⟨distinct, by simp⟩
  have inside : ∀ b ∈ [a], b ∈ nodes := by simpa using start
  have result : Exploration.add {} ((pathsThrough next target nodes [a]).map (([] : List α) ++ ·)) =
      { found := allPaths next nodes a target } := by
    simp [Exploration.add, pathsThrough, allPaths, start, last]
  constructor
  · intro walk
    rw [walk.eq closed inside leaves]
    exact result
  · rintro rfl
    obtain ⟨t, walk⟩ : ∃ t, Explores next target {} [a] t := exists_explores closed inside leaves
    have same := walk.eq closed inside leaves
    rwa [same, result] at walk

end SmaliTrace.Graph
