/-!
Walks over finite directed graphs, given by the successors of a node. Every walk carries the nodes
that it may still enter, and ends because they run out.
-/
namespace SmaliTrace.Graph

variable {α : Type} [DecidableEq α]

/-- The nodes reached depth first from the stack, in the order they are entered; only the nodes of
`unseen` are entered. -/
def preorder (next : α → List α) (unseen stack : List α) : List α :=
  match stack with
  | [] => []
  | a :: stack =>
    if _h : a ∈ unseen then a :: preorder next (unseen.erase a) (next a ++ stack)
    else preorder next unseen stack
termination_by (unseen.length, stack.length)
decreasing_by
  · have := List.length_erase_of_mem _h
    have := List.length_pos_of_mem _h
    simp_wf
    apply Prod.Lex.left
    omega
  · simp_wf
    apply Prod.Lex.right
    omega

/-- The members of `unseen` among the successors of a node, each once. -/
def discovered (next : α → List α) (unseen : List α) (a : α) : List α :=
  ((next a).filter (· ∈ unseen)).eraseDups

/-- The members of `unseen` that were not found. -/
def remaining (unseen found : List α) : List α := unseen.filter (· ∉ found)

theorem remaining_nil (unseen : List α) : remaining unseen [] = unseen := by simp [remaining]

theorem length_remaining_lt {next : α → List α} {unseen : List α} {a : α}
    (some : discovered next unseen a ≠ []) :
    (remaining unseen (discovered next unseen a)).length < unseen.length := by
  obtain ⟨b, rest, eq⟩ := List.exists_cons_of_ne_nil some
  have member : b ∈ discovered next unseen a := by simp [eq]
  have seen : b ∈ unseen := by
    simp only [discovered, List.mem_eraseDups, List.mem_filter, decide_eq_true_eq] at member
    exact member.2
  exact List.length_filter_lt_length_iff_exists.mpr ⟨b, seen, by simpa using member⟩

/-- The edges of the breadth-first search from the queue, each a node with the node it was reached
from, in the order of discovery. -/
def searchTree (next : α → List α) (unseen queue : List α) : List (α × α) :=
  match queue with
  | [] => []
  | a :: queue =>
    let found := discovered next unseen a
    found.map (·, a) ++ searchTree next (remaining unseen found) (queue ++ found)
termination_by (unseen.length, queue.length)
decreasing_by
  by_cases none : discovered next unseen a = []
  · rw [none, remaining_nil]
    apply Prod.Lex.right
    simp
  · exact Prod.Lex.left _ _ (length_remaining_lt none)

/-- The nodes reached breadth first from the queue, nearest first. -/
def breadthFirst (next : α → List α) (unseen queue : List α) : List α :=
  (searchTree next unseen queue).map (·.1)

/-- Every path that starts with `a`, ends at its first arrival at `target` and visits, after `a`, nodes
of `unseen` without repetition. -/
def simplePaths (next : α → List α) (target : α) (unseen : List α) (a : α) : List (List α) :=
  if a = target then [[a]]
  else
    (next a).flatMap fun b =>
      if _h : b ∈ unseen then (simplePaths next target (unseen.erase b) b).map (a :: ·) else []
termination_by unseen.length
decreasing_by
  have := List.length_erase_of_mem _h
  have := List.length_pos_of_mem _h
  omega

/-- Follows search edges back from `a`, the last discovered edge first; `path` is the part of the path
from `a` on. -/
def trail : List (α × α) → α → List α → List α
  | [], _, path => path
  | (b, parent) :: edges, a, path =>
    if b = a then trail edges parent (parent :: path) else trail edges a path

/-- A path with the fewest nodes from `a` to `target` inside `nodes`. -/
def shortestPath? (next : α → List α) (nodes : List α) (a target : α) : Option (List α) :=
  if a ∉ nodes ∨ target ∉ nodes then none
  else if a = target then some [a]
  else
    let edges := searchTree next (nodes.erase a) [a]
    if edges.any fun (b, _) => b = target then some (trail edges.reverse target [target]) else none

/-- Every path without repetition from `a` to `target` inside `nodes`. -/
def allPaths (next : α → List α) (nodes : List α) (a target : α) : List (List α) :=
  if a ∉ nodes ∨ target ∉ nodes then [] else simplePaths next target (nodes.erase a) a

/-- The nodes that are a successor of no node. -/
def leaves (next : α → List α) (nodes : List α) : List α :=
  nodes.filter fun a => !nodes.any fun b => (next b).contains a

end SmaliTrace.Graph
