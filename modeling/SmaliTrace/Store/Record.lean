import SmaliTrace.Analysis.Basic
import SmaliTrace.Timestamp

/-!
Records: what is stored of the result of a rule.
-/
namespace SmaliTrace.Store
open SmaliTrace.Analysis SmaliTrace.Slice

/-- What is stored of a constant. -/
structure ConstantRecord where
  search : Int := 0
  kind : String := ""
  value : String := ""
  raw : String := ""
  fuzzy : Int := 0
  line : String := ""
deriving DecidableEq, Repr, Inhabited

/-- What is stored of a finding. A trace can be absent. -/
structure FindingRecord where
  file : String := ""
  line : Int := 0
  kind : String := ""
  value : String := ""
  trace : Option (List String) := none
deriving DecidableEq, Repr, Inhabited

/-- What is stored of the result of a rule. The constants can be absent; without a time of its own a
record has the time at which it is saved. -/
structure Record where
  rule : String := ""
  pattern : String := ""
  backward : Bool := false
  seeds : Int := 0
  aborted : List String := []
  errors : List String := []
  constants : Option (List ConstantRecord) := none
  findings : List FindingRecord := []
  saved : Option Timestamp := none
deriving DecidableEq, Repr, Inhabited

/-- A list, absent if it is empty. -/
def presentList {α : Type} (as : List α) : Option (List α) := if as.isEmpty then none else some as

/-- The record of a constant. -/
def ConstantRecord.ofConstant (p : Program) (c : Constant) : ConstantRecord :=
  { search := c.search, kind := c.kind.name, value := c.value.toText, raw := c.raw,
    fuzzy := c.fuzzy, line := (p.label c.line).show }

/-- The record of a finding. -/
def FindingRecord.ofFinding (p : Program) (f : Finding) : FindingRecord :=
  { file := f.file, line := f.line, kind := f.constant.kind.name, value := f.constant.value.toText,
    trace := presentList (f.trace.map fun l => (p.label l).show) }

/-- The record of the result of a rule. -/
def Record.ofResult (p : Program) (r : RuleResult) : Record :=
  { rule := r.name
    pattern := r.criterion.pattern
    backward := r.backward
    seeds := r.criterion.searches.length
    aborted := r.criterion.abortedSearches.map fun s => s.outcome.reason
    errors := r.criterion.faults.map Fault.message
    constants := presentList ((r.criterion.allConstants p.label).map (.ofConstant p))
    findings := r.findings.map (.ofFinding p) }

end SmaliTrace.Store
