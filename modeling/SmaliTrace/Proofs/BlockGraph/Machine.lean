import Mathlib.Tactic.ByContra
import SmaliTrace.BlockGraph.Flow

/-!
How control moves between the lines of a body when it runs, said without blocks: an executable line
transfers control to a place in the body, and execution goes on at the first executable line from there.
-/
namespace SmaliTrace.BlockGraph
open SmaliTrace.ClassFile SmaliTrace.Smali

/-- What the line does. -/
def operationAt? (m : Method) (l : Nat) : Option Operation := m.lines[l]?.map CodeLine.operation

theorem operationAt?_eq_none {m : Method} {l : Nat} (beyond : m.lines.size ≤ l) : operationAt? m l = none := by
  simp [operationAt?, Array.getElem?_eq_none beyond]

/-- The line defines the label, and no later line does. -/
def LabelAt (m : Method) (name : String) (t : Nat) : Prop :=
  operationAt? m t = some (.label name) ∧ ∀ k, t < k → operationAt? m k ≠ some (.label name)

instance (m : Method) (name : String) (t : Nat) : Decidable (LabelAt m name t) :=
  decidable_of_iff (operationAt? m t = some (.label name) ∧
      ∀ k < m.lines.size, t < k → operationAt? m k ≠ some (.label name))
    ⟨fun ⟨label, last⟩ => ⟨label, fun k after => by
        by_cases inside : k < m.lines.size
        · exact last k inside after
        · simp [operationAt?_eq_none (Nat.le_of_not_lt inside)]⟩,
      fun label => ⟨label.1, fun k _ after => label.2 k after⟩⟩

/-- The first executable line at or after a place. -/
structure FirstFrom (m : Method) (t l : Nat) : Prop where
  after : t ≤ l
  executed : executable m l = true
  quiet : ∀ k, t ≤ k → k < l → executable m k = false

instance (m : Method) (t l : Nat) : Decidable (FirstFrom m t l) :=
  decidable_of_iff (t ≤ l ∧ executable m l = true ∧ ∀ k < l, t ≤ k → executable m k = false)
    ⟨fun ⟨after, executed, quiet⟩ => ⟨after, executed, fun k above below => quiet k below above⟩,
      fun first => ⟨first.after, first.executed, fun k below above => first.quiet k above below⟩⟩

theorem lt_size_of_executable {m : Method} {l : Nat} (runs : executable m l = true) :
    l < m.lines.size := by
  by_contra beyond
  have absent : m.lines[l]? = none := Array.getElem?_eq_none (by omega)
  simp [executable, absent] at runs

/-- The payload behind the line `table` lists the label: from the first start of data on, only data
stands before the entry. -/
def ListsLabel (m : Method) (table : Nat) (name : String) : Prop :=
  ∃ start entry literal, table < start ∧ lineKind? m start = some .dataStart ∧
    (∀ k, table < k → k < start → lineKind? m k ≠ some .dataStart) ∧ start < entry ∧
    (∀ k, start < k → k ≤ entry → lineKind? m k = some .data) ∧
    operationAt? m entry = some (.data literal name)

/-- The directive at line `c` names a range of lines and a handler line. -/
def Directive (m : Method) (c start stop handler : Nat) : Prop :=
  ∃ range, operationAt? m c = some (.handler range) ∧ LabelAt m range.start start ∧
    LabelAt m range.stop stop ∧ LabelAt m range.handler handler

/-- An executable line hands control on to a place: to the next line unless it returns, throws or jumps,
to the label of a branch or jump, and to each label that the payload of a switch lists. -/
inductive Flows (m : Method) : Nat → Nat → Prop
  | next {l : Nat} {kind : Kind} (runs : executable m l = true) (has : lineKind? m l = some kind)
      (falls : kind ≠ .ret ∧ kind ≠ .throw ∧ kind ≠ .goto) : Flows m l (l + 1)
  | jump {l t : Nat} {op : Operation} (does : operationAt? m l = some op)
      (jumps : op.kind = .branch ∨ op.kind = .goto) (label : LabelAt m op.labelName t) : Flows m l t
  | select {l table t : Nat} {value name entry : String}
      (does : operationAt? m l = some (.switch value name)) (points : LabelAt m name table)
      (lists : ListsLabel m table entry) (label : LabelAt m entry t) : Flows m l t

/-- An exception at an executable line leads to the handler of a range that it lies in. -/
def Raises (m : Method) (l t : Nat) : Prop :=
  executable m l = true ∧ ∃ c start stop, Directive m c start stop t ∧ start ≤ l ∧ l ≤ stop

/-- An executable line transfers control to a place, with or without an exception. -/
def Transfer (m : Method) (l t : Nat) : Prop := Flows m l t ∨ Raises m l t

/-- One step of execution, from an executable line to an executable line. -/
def Step (m : Method) (l l' : Nat) : Prop := ∃ t, Transfer m l t ∧ FirstFrom m t l'

/-- The bridge of a try range: from its last executable line to the line after the directive, if that
is the last directive of a run. -/
def Bridge (m : Method) (l t : Nat) : Prop :=
  ∃ c start stop handler, Directive m c start stop handler ∧ executable m l = true ∧ start ≤ l ∧
    l ≤ stop ∧ (∀ k, l < k → k ≤ stop → executable m k = false) ∧ t = c + 1 ∧ t < m.lines.size ∧
    lineKind? m t ≠ some .handler

end SmaliTrace.BlockGraph
