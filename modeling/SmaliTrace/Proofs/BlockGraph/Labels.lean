import SmaliTrace.Proofs.BlockGraph.Blocks
import SmaliTrace.Proofs.Graph.DepthFirst

/-!
The labels of blocks. The blocks that lead on from the entry are numbered in the order in which the recursive
depth-first walk enters them, and no other block has a number.
-/
namespace SmaliTrace.BlockGraph
open SmaliTrace.ClassFile SmaliTrace.Smali
open SmaliTrace.Graph (preorder depthFirst sparingPreorder Enters preorder_subset nodup_preorder
  preorder_eq_depthFirst sparingPreorder_eq_preorder)

namespace Graph

/-- The blocks that follow a block, in the order of its edges. -/
def succs (g : Graph) (b : Nat) : List Nat := (g.blocks[b]?.map Block.succs).getD []

/-- The label of the block with an index. -/
def labelOf? (g : Graph) (b : Nat) : Option Nat := g.blocks[b]?.bind Block.label

/-- Edges lead to the block from the entry. -/
def Linked (g : Graph) (b : Nat) : Prop := Relation.ReflTransGen (fun a b => b ∈ g.succs a) 0 b

/-- The linked blocks have the numbers from 0 on, each number once, and no other block has one. -/
structure Numbered (g : Graph) (k : Nat) : Prop where
  linked : ∀ b, g.Linked b ↔ ∃ l, g.labelOf? b = some l
  below : ∀ b l, g.labelOf? b = some l → l < k
  once : ∀ l, l < k → ∃! b, g.labelOf? b = some l

end Graph

namespace HasFlow

variable {m : Method} {g : Graph} {flow : Flow} (has : HasFlow m g flow)
include has

theorem succs_eq : g.succs = succsOf (edges m (partition m flow.links) flow.links) := by
  funext b
  cases found : g.blocks[b]? with
  | some block =>
    obtain ⟨part, _, rfl⟩ := has.block_iff.mp found
    simp [Graph.succs, found, makeBlock]
  | none =>
    have outside : succsOf (edges m (partition m flow.links) flow.links) b = [] := by
      refine List.eq_nil_iff_forall_not_mem.mpr fun c member => ?_
      have edge : (b, c) ∈ edges m (partition m flow.links) flow.links := by simpa [succsOf] using member
      have bound := (has.lt_size_of_mem_edges edge).1
      simp [Array.getElem?_eq_getElem bound] at found
    simp [Graph.succs, found, outside]

theorem lt_size_of_mem_succs {b c : Nat} (after : c ∈ g.succs b) : c < g.blocks.size := by
  rw [has.succs_eq] at after
  exact (has.lt_size_of_mem_edges (b := b) (by simpa [succsOf] using after)).2

/-- The blocks are numbered by their places in the walk from the first one. -/
theorem labelOf?_eq {b : Nat} (bound : b < g.blocks.size) :
    g.labelOf? b = (preorder g.succs (List.range g.blocks.size) [0]).idxOf? b := by
  have found := Array.getElem?_eq_getElem bound
  obtain ⟨part, _, isBlock⟩ := has.block_iff.mp found
  rw [Graph.labelOf?, found, Option.bind_some, isBlock, has.succs_eq, has.size_blocks]
  rfl

theorem mem_order_iff {b : Nat} : b ∈ preorder g.succs (List.range g.blocks.size) [0] ↔ g.Linked b := by
  have entry : 0 < g.blocks.size := by
    rw [has.size_blocks]
    exact List.length_pos_iff.mpr (partition_ne_nil _ has.live)
  have steps : Enters g.succs (List.range g.blocks.size) = fun a b => b ∈ g.succs a := by
    funext a b
    refine propext ⟨And.left, fun after => ⟨after, ?_⟩⟩
    exact List.mem_range.mpr (has.lt_size_of_mem_succs after)
  simp only [SmaliTrace.Graph.mem_preorder_iff, List.mem_singleton, exists_eq_left, List.mem_range, entry,
    true_and, steps, Graph.Linked]

theorem labelOf?_eq_some_iff {b l : Nat} :
    g.labelOf? b = some l ↔ (preorder g.succs (List.range g.blocks.size) [0])[l]? = some b := by
  have distinct : (preorder g.succs (List.range g.blocks.size) [0]).Nodup := nodup_preorder List.nodup_range
  constructor
  · intro labelled
    have bound : b < g.blocks.size := by
      by_contra outside
      simp [Graph.labelOf?, Array.getElem?_eq_none (Nat.le_of_not_lt outside)] at labelled
    rw [has.labelOf?_eq bound] at labelled
    obtain ⟨inside, same, _⟩ := List.idxOf?_eq_some_iff.mp labelled
    exact List.getElem?_eq_some_iff.mpr ⟨inside, same⟩
  · intro atL
    have bound : b < g.blocks.size := List.mem_range.mp (preorder_subset (List.mem_of_getElem? atL))
    obtain ⟨inside, same⟩ := List.getElem?_eq_some_iff.mp atL
    rw [has.labelOf?_eq bound]
    refine List.idxOf?_eq_some_iff.mpr ⟨inside, same, fun j before again => ?_⟩
    have := (distinct.getElem_inj_iff).mp (again.trans same.symm)
    omega

theorem numbered : g.Numbered (preorder g.succs (List.range g.blocks.size) [0]).length where
  linked b := by
    rw [← has.mem_order_iff, List.mem_iff_getElem?]
    simp only [has.labelOf?_eq_some_iff]
  below b l labelled := (List.getElem?_eq_some_iff.mp (has.labelOf?_eq_some_iff.mp labelled)).1
  once l bound := by
    refine ⟨_, has.labelOf?_eq_some_iff.mpr (List.getElem?_eq_getElem bound), fun b labelled => ?_⟩
    have atL := has.labelOf?_eq_some_iff.mp labelled
    rw [List.getElem?_eq_getElem bound] at atL
    exact (Option.some.inj atL).symm

theorem unlinked_iff :
    g.unlinked = true ↔ (preorder g.succs (List.range g.blocks.size) [0]).length < g.blocks.size := by
  rw [has.succs_eq, has.size_blocks, has.graph]
  simp [ofFlow]

end HasFlow

variable {m : Method} {g : Graph}

/-- The labels of a graph with blocks are those of the recursive depth-first walk from the first block, which follows
the edges in their order, and the walk with a stack finds the same ones. They number the linked blocks from 0 on, and
the graph has unlinked blocks exactly if there are more blocks than numbers. -/
theorem labels_depthFirst (built : ofMethod m = .ok g) (some : g.blocks ≠ #[]) :
    (∀ b, b < g.blocks.size →
      g.labelOf? b = (depthFirst g.succs (List.range g.blocks.size) [0]).idxOf? b) ∧
      sparingPreorder g.succs (List.range g.blocks.size) [0] =
        depthFirst g.succs (List.range g.blocks.size) [0] ∧
      ∃ k, g.Numbered k ∧ (g.unlinked = true ↔ k < g.blocks.size) := by
  rcases blocks_eq_empty_or_hasFlow built with rfl | ⟨flow, has⟩
  · exact absurd rfl some
  · have recursive : preorder g.succs (List.range g.blocks.size) [0] =
        depthFirst g.succs (List.range g.blocks.size) [0] := preorder_eq_depthFirst List.nodup_range [0]
    refine ⟨fun b bound => ?_, ?_, _, has.numbered, has.unlinked_iff⟩
    · rw [has.labelOf?_eq bound, recursive]
    · rw [sparingPreorder_eq_preorder, recursive]

/-- A loop at the entry, and a block that a jump goes over. -/
def loopAndJump : Method where
  owner := "LMain;"
  name := "run"
  params := []
  result := "V"
  flags := [.static]
  lines := #[⟨1, "", .label "top", ""⟩, ⟨2, "if-eqz", .ifZero "v0" "top", ""⟩, ⟨3, "goto", .goto "end", ""⟩,
    ⟨4, "nop", .nop, ""⟩, ⟨5, "", .label "end", ""⟩, ⟨6, "return-void", .returnVoid, ""⟩]

/-- The graph of that body. -/
def loopAndJumpGraph : Graph where
  blocks := #[
    { lines := [0, 1], label := some 0, preds := [0], succs := [1, 0], returns := false, throws := false,
      jumps := false, dead := false, isTry := false, isHandler := false },
    { lines := [2], label := some 1, preds := [0], succs := [3], returns := false, throws := false,
      jumps := true, dead := false, isTry := false, isHandler := false },
    { lines := [3], label := none, preds := [], succs := [3], returns := false, throws := false,
      jumps := false, dead := false, isTry := false, isHandler := false },
    { lines := [4, 5], label := some 2, preds := [1, 2], succs := [], returns := true, throws := false,
      jumps := false, dead := false, isTry := false, isHandler := false }]
  unlinked := true

/-- Three of its four blocks have a number. -/
theorem labels_loopAndJump :
    ofMethod loopAndJump = .ok loopAndJumpGraph ∧ loopAndJumpGraph.blocks ≠ #[] ∧
      (∀ b, b < loopAndJumpGraph.blocks.size → loopAndJumpGraph.labelOf? b =
        (depthFirst loopAndJumpGraph.succs (List.range loopAndJumpGraph.blocks.size) [0]).idxOf? b) ∧
      ∃ k, loopAndJumpGraph.Numbered k ∧ k < loopAndJumpGraph.blocks.size := by
  have built : ofMethod loopAndJump = .ok loopAndJumpGraph := by cbv
  have some : loopAndJumpGraph.blocks ≠ #[] := by simp [loopAndJumpGraph]
  obtain ⟨labels, _, k, numbered, unlinked⟩ := labels_depthFirst built some
  exact ⟨built, some, labels, k, numbered, unlinked.mp rfl⟩

end SmaliTrace.BlockGraph
