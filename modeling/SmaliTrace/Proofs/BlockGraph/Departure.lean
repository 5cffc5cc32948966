import SmaliTrace.Proofs.BlockGraph.Blocks
import SmaliTrace.Proofs.BlockGraph.NoDeadCode

/-!
Where control goes when it leaves a block. A block whose last executable line neither branches nor jumps is
followed by the next block only, unless a try range covers a line of it.
-/
namespace SmaliTrace.BlockGraph
open SmaliTrace.ClassFile SmaliTrace.Smali

variable {m : Method} {g : Graph} {flow : Flow}

/-- Control that comes to the end of a line of this kind goes to the next line and nowhere else. -/
def GoesOn (kind : Kind) : Prop :=
  kind.endsBlock = false ∧ kind ≠ .branch ∧ kind ≠ .switch

namespace HasFlow

variable (has : HasFlow m g flow) {b c : Nat} {block : Block}
include has

/-- A block is a try block as soon as a directive covers an executable line of it. -/
theorem isTry_of_directive (found : g.blocks[b]? = some block) {l d start stop handler : Nat}
    (inside : l ∈ block.lines) (runs : executable m l = true) (directive : Directive m d start stop handler)
    (covered : start ≤ l ∧ l ≤ stop) : block.isTry = true := by
  obtain ⟨t, member, rfl, rfl⟩ := exists_try has.collected directive
  obtain ⟨part, _, rfl⟩ := has.block_iff.mp found
  simp only [makeBlock, List.any_eq_true, Bool.and_eq_true]
  refine ⟨l, inside, runs, t, member, ?_⟩
  simpa [TryRange.covers] using covered

/-- The line that a link of a block starts from is a line of that block. -/
theorem mem_lines_of_partOf (found : g.blocks[b]? = some block) {l : Nat} (bound : l < m.lines.size)
    (home : partOf (partition m flow.links) l = b) : l ∈ block.lines := by
  obtain ⟨b', block', found', inside, home'⟩ := has.exists_block bound
  obtain rfl : b' = b := home'.symm.trans home
  cases found.symm.trans found'
  exact inside

/-- A block that no try range covers is followed by the next block only, if its last executable line goes on. -/
theorem eq_succ_of_goesOn (found : g.blocks[b]? = some block) {l : Nat} {kind : Kind}
    (last : lastExecutable? m block.lines = some l) (isKind : lineKind? m l = some kind) (goesOn : GoesOn kind)
    (plain : block.isTry = false) (edge : c ∈ block.succs) : c = b + 1 := by
  obtain ⟨falls, notBranch, notSwitch⟩ := goesOn
  have notGoto : kind ≠ .goto := (endsBlock_eq_false_iff.mp falls).2.2
  -- no line of the block jumps, since it would be the last executable one
  have still {k : Nat} (inside : k ∈ block.lines) :
      ¬ (lineKind? m k = some .goto ∨ lineKind? m k = some .branch ∨ lineKind? m k = some .switch) := by
    intro jumps
    have last' := has.partitions.last block (Array.mem_of_getElem? found) k inside jumps
    obtain rfl := Option.some.inj (last.symm.trans last')
    rw [isKind] at jumps
    simp [notGoto, notBranch, notSwitch] at jumps
  have uncovered {k d start stop handler : Nat} (inside : k ∈ block.lines) (runs : executable m k = true)
      (directive : Directive m d start stop handler) (covered : start ≤ k ∧ k ≤ stop) : False := by
    have := has.isTry_of_directive found inside runs directive covered
    simp [plain] at this
  rcases mem_edges_iff.mp ((has.mem_succs_iff found).mp edge) with ⟨link, member, source, -, -⟩ | ⟨next, -⟩
  · exfalso
    obtain ⟨line, given⟩ := (mem_links_iff has.collected link).mp member
    have inside := has.mem_lines_of_partOf found (src_lt_of_gives given) source
    cases given with
    | fall does forks _ =>
      apply still inside
      rw [lineKind?_eq, does]
      rcases forks with kind | kind <;> simp [kind]
    | jump does jumps _ =>
      apply still inside
      rw [lineKind?_eq, does]
      rcases jumps with kind | kind <;> simp [kind]
    | select does _ _ _ =>
      apply still inside
      rw [lineKind?_eq, does]
      simp [Operation.kind]
    | raise runs directive covered => exact uncovered inside runs directive covered
    | bridge directive runs covered _ _ _ => exact uncovered inside runs directive covered
  · exact next

end HasFlow

end SmaliTrace.BlockGraph
