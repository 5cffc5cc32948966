import SmaliTrace.Proofs.BlockGraph.Links
import SmaliTrace.Proofs.BlockGraph.Partition

/-!
The block graph of a body in terms of its parts and links: which lines a block has, which blocks follow
it, and where a line is found.
-/
namespace SmaliTrace.BlockGraph
open SmaliTrace.ClassFile SmaliTrace.Smali

variable {m : Method} {g : Graph} {flow : Flow}

/-- The graph is that of a body with executable lines and the given flow. -/
structure HasFlow (m : Method) (g : Graph) (flow : Flow) : Prop where
  live : ∃ l, executable m l = true
  collected : collectFlow m = .ok flow
  graph : g = ofFlow m flow

theorem any_executable_iff (m : Method) :
    (List.range m.lines.size).any (executable m) = true ↔ ∃ l, executable m l = true := by
  rw [List.any_eq_true]
  constructor
  · rintro ⟨l, _, runs⟩
    exact ⟨l, runs⟩
  · rintro ⟨l, runs⟩
    exact ⟨l, List.mem_range.mpr (lt_size_of_executable runs), runs⟩

/-- A built graph has no blocks, or is that of the flow of its body. -/
theorem blocks_eq_empty_or_hasFlow (built : ofMethod m = .ok g) :
    g = {} ∨ ∃ flow, HasFlow m g flow := by
  have built' : build m = .ok g := by
    unfold ofMethod at built
    split at built
    · simp at built
    · split at built
      · next found => simpa [found] using built
      · simp at built
  unfold build at built'
  split at built'
  · next live =>
    obtain ⟨flow, collected, rfl⟩ : ∃ flow, collectFlow m = .ok flow ∧ ofFlow m flow = g := by
      cases collected : collectFlow m with
      | error e => simp [collected, Except.map] at built'
      | ok flow => exact ⟨flow, rfl, by simpa [collected, Except.map] using built'⟩
    exact .inr ⟨flow, (any_executable_iff m).mp live, collected, rfl⟩
  · exact .inl (Except.ok.inj built').symm

theorem exists_hasFlow (built : ofMethod m = .ok g) (live : ∃ l, executable m l = true) :
    ∃ flow, HasFlow m g flow := by
  rcases blocks_eq_empty_or_hasFlow built with rfl | found
  · exfalso
    unfold ofMethod at built
    split at built
    · simp at built
    · have busy := (any_executable_iff m).mpr live
      unfold build at built
      simp only [busy, if_true] at built
      cases collected : collectFlow m with
      | error e => simp [collected, Except.map] at built
      | ok flow =>
        simp only [collected, Except.map, Except.ok.injEq] at built
        have empty : (ofFlow m flow).blocks.size = 0 := by rw [built]; rfl
        simp only [ofFlow, List.size_toArray, List.length_map, List.length_zipIdx,
          List.length_eq_zero_iff] at empty
        exact partition_ne_nil _ live empty
  · exact found

namespace HasFlow

variable (has : HasFlow m g flow)
include has

theorem size_blocks : g.blocks.size = (partition m flow.links).length := by
  simp [has.graph, ofFlow]

/-- The block with an index, by its part and the edges at it. -/
theorem block_iff {b : Nat} {block : Block} :
    g.blocks[b]? = some block ↔ ∃ part, (partition m flow.links)[b]? = some part ∧
      block = makeBlock m flow (edges m (partition m flow.links) flow.links)
        (SmaliTrace.Graph.preorder (succsOf (edges m (partition m flow.links) flow.links))
          (List.range (partition m flow.links).length) [0]) part b := by
  obtain ⟨_, _, rfl⟩ := has
  simp only [ofFlow, List.getElem?_toArray, List.getElem?_map, List.getElem?_zipIdx, Nat.zero_add,
    Option.map_map, Option.map_eq_some_iff, Function.comp_apply]
  simp only [eq_comm]

theorem part_of_block {b : Nat} {block : Block} (found : g.blocks[b]? = some block) :
    (partition m flow.links)[b]? = some block.lines := by
  obtain ⟨part, atB, rfl⟩ := has.block_iff.mp found
  exact atB

theorem block_of_part {b : Nat} {part : List Nat} (found : (partition m flow.links)[b]? = some part) :
    ∃ block, g.blocks[b]? = some block ∧ block.lines = part :=
  ⟨_, has.block_iff.mpr ⟨part, found, rfl⟩, rfl⟩

theorem mem_succs_iff {b c : Nat} {block : Block} (found : g.blocks[b]? = some block) :
    c ∈ block.succs ↔ (b, c) ∈ edges m (partition m flow.links) flow.links := by
  obtain ⟨part, _, rfl⟩ := has.block_iff.mp found
  simp [makeBlock, succsOf]

theorem mem_preds_iff {b c : Nat} {block : Block} (found : g.blocks[c]? = some block) :
    b ∈ block.preds ↔ (b, c) ∈ edges m (partition m flow.links) flow.links := by
  obtain ⟨part, _, rfl⟩ := has.block_iff.mp found
  simp [makeBlock, predsOf]

/-- The block of a line is the one that lists it. -/
theorem locate?_eq {b l : Nat} {block : Block} (found : g.blocks[b]? = some block)
    (inside : l ∈ block.lines) : g.locate? l = some (b, block.lines.idxOf l) := by
  have first : g.blocks.findIdx? (fun block => block.lines.contains l) = some b := by
    obtain ⟨bound, same⟩ := Array.getElem?_eq_some_iff.mp found
    rw [Array.findIdx?_eq_some_iff_getElem]
    refine ⟨bound, by simpa [same] using inside, fun a before => ?_⟩
    by_contra shared
    have inside' : l ∈ g.blocks[a].lines := by simpa using shared
    have found' : g.blocks[a]? = some g.blocks[a] := Array.getElem?_eq_getElem (by omega)
    have := lt_of_part_lt has.live (has.part_of_block found') (has.part_of_block found) before inside'
      inside
    omega
  simp only [Graph.locate?, bind, first, found, Option.bind_some]

theorem exists_block {l : Nat} (bound : l < m.lines.size) :
    ∃ b block, g.blocks[b]? = some block ∧ l ∈ block.lines ∧ partOf (partition m flow.links) l = b := by
  obtain ⟨part, found, inside⟩ := exists_part has.live flow.links bound
  obtain ⟨block, found', rfl⟩ := has.block_of_part found
  exact ⟨_, block, found', inside, rfl⟩

end HasFlow

/-! ### Edges -/

theorem mem_edges_iff {parts : List (List Nat)} {links : List Link} {b c : Nat} :
    (b, c) ∈ edges m parts links ↔
      (∃ link ∈ links, partOf parts link.src = b ∧ partOf parts link.dst = c ∧
        ¬ (link.bridge = true ∧ b = c)) ∨
      (c = b + 1 ∧ c < parts.length ∧ ∃ part l kind, parts[b]? = some part ∧
        lastExecutable? m part = some l ∧ lineKind? m l = some kind ∧ kind.endsBlock = false) := by
  unfold edges
  rw [List.mem_eraseDups, List.mem_append]
  refine or_congr ?_ ?_
  · simp only [linkEdges, List.mem_filterMap]
    refine exists_congr fun link => and_congr_right fun _ => ?_
    split
    · next skipped =>
      simp only [Bool.and_eq_true, decide_eq_true_eq] at skipped
      simp only [reduceCtorEq, false_iff]
      rintro ⟨rfl, rfl, counted⟩
      exact counted skipped
    · next counted =>
      simp only [Bool.and_eq_true, decide_eq_true_eq] at counted
      simp only [Option.some.injEq, Prod.mk.injEq]
      constructor
      · rintro ⟨rfl, rfl⟩
        exact ⟨rfl, rfl, counted⟩
      · rintro ⟨rfl, rfl, _⟩
        exact ⟨rfl, rfl⟩
  · simp only [fallEdges, List.mem_filterMap, List.mem_range]
    constructor
    · rintro ⟨i, bound, edge⟩
      split at edge
      · next kind last =>
        split at edge
        · simp at edge
        · next falls =>
          simp only [Option.some.injEq, Prod.mk.injEq] at edge
          obtain ⟨rfl, rfl⟩ := edge
          obtain ⟨l, found, hasKind⟩ := Option.bind_eq_some_iff.mp last
          obtain ⟨part, atB, found⟩ := Option.bind_eq_some_iff.mp found
          exact ⟨rfl, by omega, part, l, kind, atB, found, hasKind, by simpa using falls⟩
      · simp at edge
    · rintro ⟨rfl, bound, part, l, kind, atB, found, hasKind, falls⟩
      refine ⟨b, by omega, ?_⟩
      have last : (parts[b]?.bind (lastExecutable? m)).bind (lineKind? m) = some kind := by
        simp [atB, found, hasKind]
      simp [last, falls]

theorem lastExecutable?_eq_some_iff {part : List Nat} (sorted : part.Pairwise (· < ·)) {l : Nat} :
    lastExecutable? m part = some l ↔
      l ∈ part ∧ executable m l = true ∧ ∀ k ∈ part, l < k → executable m k = false :=
  find?_reverse_eq_some_iff sorted

/-- The first executable line of a part. -/
theorem find?_executable_iff {part : List Nat} (sorted : part.Pairwise (· < ·)) {l : Nat} :
    part.find? (executable m) = some l ↔
      l ∈ part ∧ executable m l = true ∧ ∀ k ∈ part, k < l → executable m k = false :=
  find?_eq_some_iff_of_pairwise (fun a b => by omega) sorted

end SmaliTrace.BlockGraph
