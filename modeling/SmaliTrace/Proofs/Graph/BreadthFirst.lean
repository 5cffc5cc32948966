import Mathlib.Logic.Relation
import SmaliTrace.Graph.Traversal

/-!
The breadth-first walk enters exactly the nodes that a path leads to, if all nodes of the path after the
first may be entered, and it enters each of them once.
-/
namespace SmaliTrace.Graph

variable {α : Type} {next : α → List α} {unseen queue : List α} {a b : α}

/-- One step of a walk that enters nodes of `unseen` only. -/
def Enters (next : α → List α) (unseen : List α) (a b : α) : Prop := b ∈ next a ∧ b ∈ unseen

theorem Enters.mono {fewer : List α} (subset : fewer ⊆ unseen) (enters : Enters next fewer a b) :
    Enters next unseen a b :=
  ⟨enters.1, subset enters.2⟩

variable [DecidableEq α]

theorem mem_discovered : b ∈ discovered next unseen a ↔ Enters next unseen a b := by
  simp [discovered, Enters]

theorem mem_remaining {found : List α} : b ∈ remaining unseen found ↔ b ∈ unseen ∧ b ∉ found := by
  simp [remaining]

theorem remaining_subset (unseen found : List α) : remaining unseen found ⊆ unseen :=
  fun _ member => (mem_remaining.mp member).1

/-- A step leads to a node that is found or to one that remains. -/
private theorem found_or_enters (found : List α) (enters : Enters next unseen a b) :
    b ∈ found ∨ Enters next (remaining unseen found) a b := by
  by_cases member : b ∈ found
  · exact .inl member
  · exact .inr ⟨enters.1, mem_remaining.mpr ⟨enters.2, member⟩⟩

/-- What is one step behind the head of the queue is discovered there, and what is further is still to be
walked to from the rest of the queue and from what was discovered. -/
private theorem discovered_or_walked {start : α} (inside : start ∈ a :: queue)
    (path : Relation.TransGen (Enters next unseen) start b) :
    b ∈ discovered next unseen a ∨ ∃ node ∈ queue ++ discovered next unseen a,
      Relation.TransGen (Enters next (remaining unseen (discovered next unseen a))) node b := by
  induction path with
  | single enters =>
    rcases List.mem_cons.mp inside with rfl | waiting
    · exact .inl (mem_discovered.mpr enters)
    · exact (found_or_enters _ enters).imp_right fun enters' =>
        ⟨start, List.mem_append_left _ waiting, .single enters'⟩
  | @tail middle target _ enters ih =>
    refine (found_or_enters _ enters).imp_right fun enters' => ?_
    rcases ih with found | ⟨node, member, path'⟩
    · exact ⟨middle, List.mem_append_right queue found, .single enters'⟩
    · exact ⟨node, member, path'.tail enters'⟩

theorem breadthFirst_cons (next : α → List α) (unseen : List α) (a : α) (queue : List α) :
    breadthFirst next unseen (a :: queue) = discovered next unseen a ++
      breadthFirst next (remaining unseen (discovered next unseen a)) (queue ++ discovered next unseen a) := by
  simp [breadthFirst, searchTree, Function.comp_def]

/-- The walk enters a node exactly if a path leads to it from the queue. -/
theorem mem_breadthFirst_iff : b ∈ breadthFirst next unseen queue ↔
    ∃ start ∈ queue, Relation.TransGen (Enters next unseen) start b := by
  induction unseen, queue using searchTree.induct next with
  | case1 unseen => simp [breadthFirst, searchTree]
  | case2 unseen a queue found ih =>
    rw [breadthFirst_cons, List.mem_append, ih]
    constructor
    · rintro (here | ⟨start, inside, path⟩)
      · exact ⟨a, by simp, .single (mem_discovered.mp here)⟩
      · have path' := Relation.TransGen.mono (fun _ _ => Enters.mono (remaining_subset unseen found)) _ _ path
        rcases List.mem_append.mp inside with waiting | fresh
        · exact ⟨start, by simp [waiting], path'⟩
        · exact ⟨a, by simp, .head (mem_discovered.mp fresh) path'⟩
    · rintro ⟨start, inside, path⟩
      exact discovered_or_walked inside path

/-- From a single node, all nodes but itself may be entered: a path that comes back to the node can as well
start there. -/
theorem mem_breadthFirst_erase_iff {nodes : List α} (distinct : nodes.Nodup) :
    b ∈ breadthFirst next (nodes.erase a) [a] ↔
      b ≠ a ∧ Relation.TransGen (Enters next nodes) a b := by
  have start : b ∈ breadthFirst next (nodes.erase a) [a] ↔
      Relation.TransGen (Enters next (nodes.erase a)) a b := by
    simp [mem_breadthFirst_iff]
  rw [start]
  constructor
  · intro path
    refine ⟨?_, Relation.TransGen.mono (fun _ _ => Enters.mono List.erase_subset) _ _ path⟩
    rintro rfl
    obtain ⟨_, _, enters⟩ := Relation.TransGen.tail'_iff.mp path
    exact (List.Nodup.not_mem_erase distinct) enters.2
  · rintro ⟨other, path⟩
    have restart : ∀ {node : α}, Relation.ReflTransGen (Enters next nodes) a node →
        Relation.ReflTransGen (Enters next (nodes.erase a)) a node := by
      intro node path
      induction path with
      | refl => exact .refl
      | @tail _ node _ enters ih =>
        by_cases back : node = a
        · rw [back]
        · exact ih.tail ⟨enters.1, (List.mem_erase_of_ne back).mpr enters.2⟩
    rcases Relation.reflTransGen_iff_eq_or_transGen.mp (restart path.to_reflTransGen) with same | path'
    · exact absurd same other
    · exact path'

/-! ### No node is entered twice -/

theorem nodup_eraseDups {β : Type} [BEq β] [LawfulBEq β] : ∀ l : List β, l.eraseDups.Nodup
  | [] => by simp
  | b :: rest => by
    have ih := nodup_eraseDups (rest.filter fun c => !c == b)
    rw [List.eraseDups_cons, List.nodup_cons]
    refine ⟨?_, ih⟩
    simp [List.mem_eraseDups]
termination_by l => l.length
decreasing_by exact Nat.lt_succ_of_le (List.length_filter_le _ _)

/-- Behind a list, an element counts unless the list has it. -/
theorem eraseDups_concat {β : Type} [BEq β] [LawfulBEq β] (l : List β) (b : β) :
    (l ++ [b]).eraseDups = if b ∈ l then l.eraseDups else l.eraseDups ++ [b] := by
  rw [List.eraseDups_append]
  by_cases known : b ∈ l
  · simp [known, List.removeAll]
  · simp [known, List.removeAll, List.eraseDups_cons]

theorem mem_unseen_of_mem_breadthFirst (found : b ∈ breadthFirst next unseen queue) : b ∈ unseen := by
  obtain ⟨start, _, path⟩ := mem_breadthFirst_iff.mp found
  obtain ⟨_, _, enters⟩ := Relation.TransGen.tail'_iff.mp path
  exact enters.2

theorem nodup_breadthFirst (next : α → List α) (unseen queue : List α) : (breadthFirst next unseen queue).Nodup := by
  induction unseen, queue using searchTree.induct next with
  | case1 unseen => simp [breadthFirst, searchTree]
  | case2 unseen a queue found ih =>
    rw [breadthFirst_cons, List.nodup_append]
    refine ⟨nodup_eraseDups _, ih, ?_⟩
    intro b here c later same
    have left := mem_remaining.mp (mem_unseen_of_mem_breadthFirst later)
    exact left.2 (same ▸ here)

/-! ### Walks over part of the nodes -/

theorem filter_eraseDups (keep : α → Bool) (l : List α) :
    l.eraseDups.filter keep = (l.filter keep).eraseDups := by
  rcases l with _ | ⟨a, rest⟩
  · simp
  · have shorter := List.length_filter_le (fun b => !b == a) rest
    have ih := filter_eraseDups keep (rest.filter fun b => !b == a)
    have swap : (rest.filter fun b => !b == a).filter keep = (rest.filter keep).filter fun b => !b == a := by
      simp only [List.filter_filter, Bool.and_comm]
    rw [List.eraseDups_cons, List.filter_cons, List.filter_cons, ih, swap]
    split
    · rw [List.eraseDups_cons]
    · next dropped =>
      congr 1
      refine List.filter_eq_self.mpr fun b member => ?_
      have kept := (List.mem_filter.mp member).2
      by_cases isA : b = a
      · exact absurd (isA ▸ kept) dropped
      · simpa using isA
termination_by l.length
decreasing_by
  simp only [List.length_cons]
  omega

/-- Whatever the queue and the steps keep to, the walk keeps to. -/
theorem met_of_mem_breadthFirst {met : α → Prop} (closed : ∀ a, met a → ∀ b ∈ next a, met b)
    (start : ∀ a ∈ queue, met a) (found : b ∈ breadthFirst next unseen queue) : met b := by
  obtain ⟨a, waiting, path⟩ := mem_breadthFirst_iff.mp found
  induction path with
  | single enters => exact closed a (start a waiting) _ enters.1
  | tail _ enters ih => exact closed _ (ih (mem_breadthFirst_iff.mpr ⟨a, waiting, by assumption⟩)) _ enters.1

/-- The nodes that are kept are found in the same order by the walk over them alone, if no node that is met leads
from those that are left out back to them. -/
theorem filter_breadthFirst {next' : α → List α} {keep : α → Bool} {met : α → Prop} {nodes : List α}
    (closed : ∀ a, met a → ∀ b ∈ next a, met b)
    (same : ∀ a, met a → keep a = true → next' a = next a)
    (apart : ∀ a, met a → keep a = false → ∀ b ∈ next a, b ∈ nodes → keep b = false)
    (start : ∀ a ∈ queue, met a) (inside : unseen ⊆ nodes) :
    (breadthFirst next unseen queue).filter keep =
      breadthFirst next' (unseen.filter keep) (queue.filter keep) := by
  induction unseen, queue using searchTree.induct next with
  | case1 unseen => simp [breadthFirst, searchTree]
  | case2 unseen a queue found ih =>
    have metA := start a List.mem_cons_self
    have metFound : ∀ b ∈ queue ++ found, met b := by
      intro b member
      rcases List.mem_append.mp member with waiting | fresh
      · exact start b (List.mem_cons_of_mem _ waiting)
      · exact closed a metA b (mem_discovered.mp fresh).1
    have left : (remaining unseen found).filter keep = remaining (unseen.filter keep) (found.filter keep) := by
      simp only [remaining, List.filter_filter, List.mem_filter]
      refine List.filter_congr fun b _ => ?_
      cases keep b <;> simp
    rw [breadthFirst_cons, List.filter_append, ih metFound fun _ waits => inside (remaining_subset _ _ waits), left,
      List.filter_append]
    by_cases kept : keep a = true
    · have discovers : found.filter keep = discovered next' (unseen.filter keep) a := by
        rw [discovered, same a metA kept, show found = discovered next unseen a from rfl, discovered,
          filter_eraseDups, List.filter_filter]
        congr 1
        refine List.filter_congr fun b _ => ?_
        simp [List.mem_filter, Bool.and_comm]
      rw [List.filter_cons_of_pos kept, breadthFirst_cons, discovers]
    · have none : found.filter keep = [] := by
        refine List.filter_eq_nil_iff.mpr fun b fresh => ?_
        obtain ⟨next, entered⟩ := mem_discovered.mp fresh
        simp [apart a metA (by simpa using kept) b next (inside entered)]
      rw [List.filter_cons_of_neg kept, none, remaining_nil]
      simp

end SmaliTrace.Graph
