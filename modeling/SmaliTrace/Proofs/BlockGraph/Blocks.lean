import Mathlib.Data.List.Nodup
import SmaliTrace.Proofs.BlockGraph.Simulation
import SmaliTrace.Proofs.Graph.BreadthFirst

/-!
What the blocks of a graph are to the body they come from: they cut it up without gap or overlap, every
line is found in its own block, control leaves a block only behind its last executable line, and the edges
are listed once at both of their ends.
-/
namespace SmaliTrace.BlockGraph
open SmaliTrace.ClassFile SmaliTrace.Smali

variable {m : Method} {g : Graph} {flow : Flow}

/-- The blocks cut the body up, and their edges agree at both ends. -/
structure Partitions (m : Method) (g : Graph) : Prop where
  /-- One block after the other, the blocks list the lines of the body. -/
  cover : g.blocks.toList.flatMap Block.lines = List.range m.lines.size
  busy : ∀ block ∈ g.blocks, ∃ l ∈ block.lines, executable m l = true
  /-- Every line is found, at its place in a block. -/
  located : ∀ l < m.lines.size, ∃ (b i : Nat) (block : Block),
    g.locate? l = some (b, i) ∧ g.blocks[b]? = some block ∧ block.lines[i]? = some l
  /-- A line that a block lists is found in that block and in no other. -/
  owner : ∀ (b : Nat) (block : Block), g.blocks[b]? = some block → ∀ l ∈ block.lines, ∀ c i,
    g.locate? l = some (c, i) → c = b
  /-- No link between lines leads out of the blocks. -/
  linked : ∀ flow, collectFlow m = .ok flow → ∀ link ∈ flow.links,
    (g.locate? link.src).isSome ∧ (g.locate? link.dst).isSome
  /-- A line that may jump is the last executable one of its block. -/
  last : ∀ block ∈ g.blocks, ∀ l ∈ block.lines,
    lineKind? m l = some .goto ∨ lineKind? m l = some .branch ∨ lineKind? m l = some .switch →
    lastExecutable? m block.lines = some l
  distinct : ∀ block ∈ g.blocks, block.succs.Nodup ∧ block.preds.Nodup
  closed : ∀ block ∈ g.blocks, ∀ c, c ∈ block.succs ∨ c ∈ block.preds → c < g.blocks.size
  agree : ∀ (b c : Nat) (block next : Block), g.blocks[b]? = some block → g.blocks[c]? = some next →
    (c ∈ block.succs ↔ b ∈ next.preds)

/-! ### Edges -/

theorem nodup_edges (m : Method) (parts : List (List Nat)) (links : List Link) :
    (edges m parts links).Nodup := Graph.nodup_eraseDups _

/-- Distinct edges from one block lead to distinct blocks. -/
theorem nodup_succsOf {edges : List (Nat × Nat)} (distinct : edges.Nodup) (b : Nat) :
    (succsOf edges b).Nodup := by
  refine List.Nodup.filterMap (fun e e' c ends ends' => ?_) distinct
  obtain ⟨src, dst⟩ := e
  obtain ⟨src', dst'⟩ := e'
  simp_all

/-- Distinct edges to one block come from distinct blocks. -/
theorem nodup_predsOf {edges : List (Nat × Nat)} (distinct : edges.Nodup) (b : Nat) :
    (predsOf edges b).Nodup := by
  refine List.Nodup.filterMap (fun e e' c ends ends' => ?_) distinct
  obtain ⟨src, dst⟩ := e
  obtain ⟨src', dst'⟩ := e'
  simp_all

namespace HasFlow

variable (has : HasFlow m g flow)
include has

theorem exists_getElem? {l : Nat} (bound : l < m.lines.size) : ∃ (b i : Nat) (block : Block),
    g.locate? l = some (b, i) ∧ g.blocks[b]? = some block ∧ block.lines[i]? = some l := by
  obtain ⟨b, block, found, inside, _⟩ := has.exists_block bound
  refine ⟨b, _, block, has.locate?_eq found inside, found, ?_⟩
  rw [List.getElem?_eq_getElem (List.idxOf_lt_length_of_mem inside), List.getElem_idxOf]

theorem flatMap_lines : g.blocks.toList.flatMap Block.lines = List.range m.lines.size := by
  rw [← flatten_partition flow.links has.live, List.flatMap_def]
  congr 1
  refine List.ext_getElem? fun b => ?_
  rw [List.getElem?_map, Array.getElem?_toList]
  cases found : g.blocks[b]? with
  | some block => rw [has.part_of_block found, Option.map_some]
  | none =>
    have beyond : g.blocks.size ≤ b := Array.getElem?_eq_none_iff.mp found
    rw [List.getElem?_eq_none (by rwa [← has.size_blocks]), Option.map_none]

/-- The line after a jump, a branch or a switch is a leader. -/
theorem isLeader_succ {l : Nat}
    (jumps : lineKind? m l = some .goto ∨ lineKind? m l = some .branch ∨ lineKind? m l = some .switch)
    (more : l + 1 < m.lines.size) : isLeader m flow.links (l + 1) = true := by
  rcases jumps with goto | forks
  · simp [isLeader, goto]
  · obtain ⟨op, does, forks⟩ : ∃ op, operationAt? m l = some op ∧ (op.kind = .branch ∨ op.kind = .switch) := by
      simp only [lineKind?_eq, Option.map_eq_some_iff] at forks
      rcases forks with ⟨op, does, kind⟩ | ⟨op, does, kind⟩
      · exact ⟨op, does, .inl kind⟩
      · exact ⟨op, does, .inr kind⟩
    have member : ⟨l, l + 1, false⟩ ∈ flow.links :=
      (mem_links_iff has.collected _).mpr ⟨l, .fall does forks more⟩
    exact isLeader_of_mem member

theorem partitions : Partitions m g where
  cover := has.flatMap_lines
  busy block member := by
    obtain ⟨b, found⟩ := Array.mem_iff_getElem?.mp member
    exact exists_executable_of_mem_partition (List.mem_of_getElem? (has.part_of_block found))
  located _ bound := has.exists_getElem? bound
  owner b block found l inside c i located := by
    rw [has.locate?_eq found inside, Option.some.injEq, Prod.mk.injEq] at located
    exact located.1.symm
  linked flow' collected link member := by
    obtain ⟨line, given⟩ := (mem_links_iff collected link).mp member
    obtain ⟨_, _, _, source, _⟩ := has.exists_getElem? (src_lt_of_gives given)
    obtain ⟨_, _, _, target, _⟩ := has.exists_getElem? (dst_lt_of_gives given)
    simp [source, target]
  last block member l inside jumps := by
    obtain ⟨b, found⟩ := Array.mem_iff_getElem?.mp member
    have runs : executable m l = true := by
      rw [executable_eq]
      rcases jumps with kind | kind | kind <;> rw [kind] <;> rfl
    exact (lastExecutable?_eq_some_iff (has.sorted found)).mpr
      ⟨inside, runs, has.quiet_after found inside runs (has.isLeader_succ jumps)⟩
  distinct block member := by
    obtain ⟨b, found⟩ := Array.mem_iff_getElem?.mp member
    obtain ⟨part, _, rfl⟩ := has.block_iff.mp found
    exact ⟨nodup_succsOf (nodup_edges m _ _) b, nodup_predsOf (nodup_edges m _ _) b⟩
  closed block member c ends := by
    obtain ⟨b, found⟩ := Array.mem_iff_getElem?.mp member
    rcases ends with after | before
    · exact (has.lt_size_of_mem_edges ((has.mem_succs_iff found).mp after)).2
    · exact (has.lt_size_of_mem_edges ((has.mem_preds_iff found).mp before)).1
  agree b c block next found found' := by rw [has.mem_succs_iff found, has.mem_preds_iff found']

end HasFlow

/-- A body that nothing runs in has no blocks; any other body is cut up by its blocks. -/
theorem partitions_of_built (built : ofMethod m = .ok g) :
    ((∀ l, executable m l = false) → g.blocks = #[]) ∧
      ((∃ l, executable m l = true) → Partitions m g) := by
  constructor
  · intro idle
    rcases blocks_eq_empty_or_hasFlow built with rfl | ⟨flow, has⟩
    · rfl
    · obtain ⟨l, runs⟩ := has.live
      simp [idle l] at runs
  · intro live
    obtain ⟨flow, has⟩ := exists_hasFlow built live
    exact has.partitions

theorem partitions_jumpBehindReturn : Partitions jumpBehindReturn jumpBehindReturnGraph :=
  (partitions_of_built ofMethod_jumpBehindReturn).2 executable_jumpBehindReturn

end SmaliTrace.BlockGraph
