import Mathlib.Logic.Relation
import SmaliTrace.Proofs.BlockGraph.Blocks

/-!
Bodies without dead code, in which execution may come to every executable line. Control enters a block at its
first executable line and goes through it line by line, so no executable line stands behind a return of its
block; and what stands right before a line in the body is found through the blocks.
-/
namespace SmaliTrace.BlockGraph
open SmaliTrace.ClassFile SmaliTrace.Smali

variable {m : Method} {g : Graph} {flow : Flow}

/-- Execution that starts at the first executable line may come to the line. -/
def Reached (m : Method) (l : Nat) : Prop :=
  ∃ entry, FirstFrom m 0 entry ∧ Relation.ReflTransGen (Step m) entry l

/-- Execution may come to every executable line. -/
def NoDeadCode (m : Method) : Prop := ∀ l, executable m l = true → Reached m l

theorem executable_of_lineKind? {l : Nat} {kind : Kind} (has : lineKind? m l = some kind)
    (executed : kind.executable = true) : executable m l = true := by
  rw [executable_eq, has]
  exact executed

theorem Reached.next {l l' : Nat} {kind : Kind} (reached : Reached m l) (has : lineKind? m l = some kind)
    (runs : kind.executable = true) (falls : kind ≠ .ret ∧ kind ≠ .throw ∧ kind ≠ .goto)
    (first : FirstFrom m (l + 1) l') : Reached m l' := by
  obtain ⟨entry, isEntry, run⟩ := reached
  exact ⟨entry, isEntry, run.tail ⟨l + 1, .inl (.next (executable_of_lineKind? has runs) has falls), first⟩⟩

theorem Reached.raise {l l' c start stop handler : Nat} (reached : Reached m l) (runs : executable m l = true)
    (directive : Directive m c start stop handler) (range : start ≤ l ∧ l ≤ stop) (first : FirstFrom m handler l') :
    Reached m l' := by
  obtain ⟨entry, isEntry, run⟩ := reached
  exact ⟨entry, isEntry, run.tail ⟨handler, .inr ⟨runs, c, start, stop, directive, range⟩, first⟩⟩

/-- The last executable line before a line. -/
structure LastBefore (m : Method) (l p : Nat) : Prop where
  before : p < l
  executed : executable m p = true
  quiet : ∀ k, p < k → k < l → executable m k = false

/-- A return hands control on to no line. -/
theorem Flows.kind_ne_ret {l t : Nat} (flows : Flows m l t) : lineKind? m l ≠ some .ret := by
  cases flows with
  | next _ has falls =>
    rw [has]
    simpa using falls.1
  | jump does jumps =>
    rw [lineKind?_eq, does]
    rcases jumps with branch | goto
    · simp [branch]
    · simp [goto]
  | select does =>
    rw [lineKind?_eq, does]
    simp [Operation.kind]

namespace HasFlow

variable (has : HasFlow m g flow)
include has

/-- A line is in one block. -/
theorem block_unique {b c l : Nat} {block next : Block} (found : g.blocks[b]? = some block)
    (inside : l ∈ block.lines) (found' : g.blocks[c]? = some next) (inside' : l ∈ next.lines) :
    b = c ∧ block = next := by
  have same := (partOf_eq has.live (has.part_of_block found) inside).symm.trans
    (partOf_eq has.live (has.part_of_block found') inside')
  subst same
  exact ⟨rfl, Option.some.inj (found.symm.trans found')⟩

/-- A step enters a block at its first executable line, or goes on from a line that is no return to the next
executable line. -/
theorem step_enters {l l' : Nat} (step : Step m l l') :
    (∃ (c : Nat) (next : Block), g.blocks[c]? = some next ∧ next.lines.find? (executable m) = some l') ∨
      (lineKind? m l ≠ some .ret ∧ FirstFrom m (l + 1) l') := by
  obtain ⟨t, flows | raises, first⟩ := step
  · obtain ⟨_, _, _, _, ⟨_, next⟩ | ⟨_, c, next, found, _, arrives⟩⟩ := has.flow_cases flows first
    · exact .inr ⟨flows.kind_ne_ret, next⟩
    · exact .inl ⟨c, next, found, arrives⟩
  · obtain ⟨_, _, _, _, c, next, found, _, arrives⟩ := has.raise_cases raises first
    exact .inl ⟨c, next, found, arrives⟩

/-- No return stands in a block before a line that execution may come to. -/
theorem kind_ne_ret_of_reached {l : Nat} (reached : Reached m l) {b : Nat} {block : Block}
    (found : g.blocks[b]? = some block) (inside : l ∈ block.lines) {k : Nat} (inside' : k ∈ block.lines)
    (before : k < l) : lineKind? m k ≠ some .ret := by
  obtain ⟨entry, first, path⟩ := reached
  have idle {k : Nat} (never : executable m k = false) : lineKind? m k ≠ some .ret := by
    intro isReturn
    simp [executable_of_lineKind? isReturn rfl] at never
  induction path generalizing k with
  | refl => exact idle (first.quiet k (Nat.zero_le k) before)
  | @tail l l' _ step ih =>
    rcases has.step_enters step with ⟨c, next, found', arrives⟩ | ⟨falls, goesOn⟩
    · -- the block is entered at the line, so nothing before it is executable
      obtain ⟨member, _, quiet⟩ := (find?_executable_iff (has.sorted found')).mp arrives
      obtain ⟨-, rfl⟩ := has.block_unique found inside found' member
      exact idle (quiet k inside' before)
    · rcases Nat.lt_trichotomy k l with less | rfl | more
      · have after := goesOn.after
        have member : l ∈ block.lines :=
          mem_part_of_between has.live (has.part_of_block found) inside' inside (by omega) (by omega)
        exact ih member inside' less
      · exact falls
      · exact idle (goesOn.quiet k more before)

/-- The line before a line in the body, if it hands control on to the next one, stands before it in its block, or is
the last executable one of a predecessor. -/
theorem previous_cases {l p : Nat} (last : LastBefore m l p) (runs : executable m l = true) {kind : Kind}
    (isKind : lineKind? m p = some kind) (falls : kind ≠ .ret ∧ kind ≠ .throw ∧ kind ≠ .goto) {b : Nat}
    {block : Block} (found : g.blocks[b]? = some block) (inside : l ∈ block.lines) :
    p ∈ block.lines ∨ ((∀ k ∈ block.lines, k < l → executable m k = false) ∧
      ∃ (a : Nat) (before : Block), g.blocks[a]? = some before ∧ a ∈ block.preds ∧ p ∈ before.lines ∧
        ∀ k ∈ before.lines, p < k → executable m k = false) := by
  have first : FirstFrom m (p + 1) l := ⟨last.before, runs, fun k above below => last.quiet k (by omega) below⟩
  obtain ⟨a, before, found', inside', stays | ⟨quiet, c, next, found'', edge, arrives⟩⟩ :=
    has.flow_cases (.next last.executed isKind falls) first
  · obtain ⟨-, rfl⟩ := has.block_unique found inside found' stays.1
    exact .inl inside'
  · obtain ⟨member, _, empty⟩ := (find?_executable_iff (has.sorted found'')).mp arrives
    obtain ⟨rfl, rfl⟩ := has.block_unique found inside found'' member
    refine .inr ⟨empty, a, before, found', ?_, inside', quiet⟩
    rw [has.mem_preds_iff found]
    exact (has.mem_succs_iff found').mp edge

end HasFlow

end SmaliTrace.BlockGraph
