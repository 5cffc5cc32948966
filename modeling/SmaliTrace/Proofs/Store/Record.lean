import Mathlib.Data.List.Forall2
import Mathlib.Data.String.Basic
import SmaliTrace.Store.Engine

/-!
What a record tells about the result of a rule; the record that is made of a result tells it.
-/
namespace SmaliTrace.Store
open SmaliTrace.Analysis SmaliTrace.Slice

/-- The record tells all that is to be known of a constant. -/
structure ConstantRecord.Describes (p : Program) (r : ConstantRecord) (c : Constant) : Prop where
  search : r.search = c.search
  kind : r.kind = c.kind.name
  value : r.value = c.value.toText
  raw : r.raw = c.raw
  fuzzy : r.fuzzy = c.fuzzy
  line : r.line = (p.label c.line).show

/-- The record tells what a finding is and how it leads to the seed. -/
structure FindingRecord.Describes (p : Program) (r : FindingRecord) (f : Finding) : Prop where
  file : r.file = f.file
  line : r.line = f.line
  kind : r.kind = f.constant.kind.name
  value : r.value = f.constant.value.toText
  trace : r.trace.getD [] = f.trace.map fun l => (p.label l).show

/-- The record tells the result of a rule: how many searches there were and which gave up and why, their faults, all
their constants in order, and the findings. -/
structure Record.Describes (p : Program) (r : Record) (result : RuleResult) : Prop where
  rule : r.rule = result.name
  pattern : r.pattern = result.criterion.pattern
  backward : r.backward = result.backward
  seeds : r.seeds = result.criterion.searches.length
  aborted : r.aborted = result.criterion.abortedSearches.map fun s => s.outcome.reason
  errors : r.errors = result.criterion.faults.map Fault.message
  constants : ∃ cs, cs.Perm (result.criterion.searches.flatMap SearchResult.constants) ∧
    cs.Pairwise (fun a b => constantLe p.label a b) ∧
      List.Forall₂ (ConstantRecord.Describes p) (r.constants.getD []) cs
  findings : List.Forall₂ (FindingRecord.Describes p) r.findings result.findings

section Order

variable {label : LineId → ClassFile.LineLabel} {a b c : Constant}

theorem constantLe_iff : constantLe label a b = true ↔ a.search < b.search ∨ a.search = b.search ∧
    (sortKey (label a.line) < sortKey (label b.line) ∨
      sortKey (label a.line) = sortKey (label b.line) ∧ a.kind.code ≤ b.kind.code) := by
  unfold constantLe
  by_cases search : a.search = b.search
  · by_cases key : sortKey (label a.line) = sortKey (label b.line)
    · simp [search, key]
    · simp [search, key]
  · simp [search]

theorem constantLe_trans (first : constantLe label a b = true) (second : constantLe label b c = true) :
    constantLe label a c = true := by
  rw [constantLe_iff] at *
  rcases first with less | ⟨same, less | ⟨sameKey, le⟩⟩
  · rcases second with less' | ⟨same', -⟩
    · exact .inl (less.trans less')
    · exact .inl (same' ▸ less)
  · rcases second with less' | ⟨same', less' | ⟨sameKey', -⟩⟩
    · exact .inl (same ▸ less')
    · exact .inr ⟨same.trans same', .inl (less.trans less')⟩
    · exact .inr ⟨same.trans same', .inl (sameKey' ▸ less)⟩
  · rcases second with less' | ⟨same', less' | ⟨sameKey', le'⟩⟩
    · exact .inl (same ▸ less')
    · exact .inr ⟨same.trans same', .inl (sameKey ▸ less')⟩
    · exact .inr ⟨same.trans same', .inr ⟨sameKey.trans sameKey', le.trans le'⟩⟩

theorem constantLe_total (label : LineId → ClassFile.LineLabel) (a b : Constant) :
    (constantLe label a b || constantLe label b a) = true := by
  rw [Bool.or_eq_true, constantLe_iff, constantLe_iff]
  rcases lt_trichotomy a.search b.search with less | same | more
  · exact .inl (.inl less)
  · rcases lt_trichotomy (sortKey (label a.line)) (sortKey (label b.line)) with less | same' | more
    · exact .inl (.inr ⟨same, .inl less⟩)
    · rcases Nat.le_total a.kind.code b.kind.code with le | ge
      · exact .inl (.inr ⟨same, .inr ⟨same', le⟩⟩)
      · exact .inr (.inr ⟨same.symm, .inr ⟨same'.symm, ge⟩⟩)
    · exact .inr (.inr ⟨same.symm, .inl more⟩)
  · exact .inr (.inl more)

end Order

theorem getD_presentList {α : Type} (as : List α) : (presentList as).getD [] = as := by
  cases as <;> rfl

theorem forall₂_map {α β : Type} {R : β → α → Prop} {f : α → β} (related : ∀ a, R (f a) a) (as : List α) :
    List.Forall₂ R (as.map f) as := by
  rw [List.forall₂_map_left_iff]
  exact List.forall₂_same.mpr fun a _ => related a

theorem FindingRecord.describes_ofFinding (p : Program) (f : Finding) :
    (FindingRecord.ofFinding p f).Describes p f where
  file := rfl
  line := rfl
  kind := rfl
  value := rfl
  trace := getD_presentList _

/-- The record made of the result of a rule tells it. -/
theorem Record.describes_ofResult (p : Program) (result : RuleResult) :
    (Record.ofResult p result).Describes p result where
  rule := rfl
  pattern := rfl
  backward := rfl
  seeds := rfl
  aborted := rfl
  errors := rfl
  constants := by
    refine ⟨result.criterion.allConstants p.label, List.mergeSort_perm _ _, ?_, ?_⟩
    · have trans (a b c : Constant) (first : constantLe p.label a b = true) (second : constantLe p.label b c = true) :=
        constantLe_trans first second
      exact List.pairwise_mergeSort trans (constantLe_total p.label) _
    · rw [ofResult, getD_presentList]
      exact forall₂_map (fun _ => ⟨rfl, rfl, rfl, rfl, rfl, rfl⟩) _
  findings := forall₂_map (FindingRecord.describes_ofFinding p) _

end SmaliTrace.Store
