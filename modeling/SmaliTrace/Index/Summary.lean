import SmaliTrace.BlockGraph.Build
import SmaliTrace.Program.Hierarchy
import SmaliTrace.Smali.Literal
import Std.Data.HashMap

/-!
Summaries: for one method, the lines that searches in other methods need to find.
-/
namespace SmaliTrace
open SmaliTrace.ClassFile SmaliTrace.Smali
open SmaliTrace.Text (Octets)

/-- Lines filed under keys; each key keeps its lines in the order they were added. -/
abbrev LineTable (κ : Type) [BEq κ] [Hashable κ] := Std.HashMap κ (Array LineId)

namespace LineTable

variable {κ : Type} [BEq κ] [Hashable κ]

/-- The lines under a key. -/
def lines (t : LineTable κ) (key : κ) : Array LineId := t.getD key #[]

/-- Files one more line under a key. -/
def file (t : LineTable κ) (key : κ) (line : LineId) : LineTable κ :=
  t.insert key ((t.lines key).push line)

end LineTable

/-- The calls, field accesses, value returns, literal loads and allocations of a method. -/
structure Summary where
  method : MethodId
  invokes : Array LineId := #[]
  puts : LineTable String := {}
  gets : LineTable String := {}
  returns : Array LineId := #[]
  literals : LineTable Octets := {}
  allocations : LineTable String := {}

namespace Summary

/-- Files one line of the method. -/
def addLine (p : Program) (s : Summary) (index : Nat) : Summary :=
  let id := LineId.body s.method index
  match (p.line? s.method index).map CodeLine.operation with
  | some (.invoke _ _) => { s with invokes := s.invokes.push id }
  | some (.instancePut _ _ f) | some (.staticPut _ f) =>
    { s with puts := s.puts.file (p.fieldKey f) id }
  | some (.instanceGet _ _ f) | some (.staticGet _ f) =>
    { s with gets := s.gets.file (p.fieldKey f) id }
  | some (.returnValue _) => { s with returns := s.returns.push id }
  | some (.constLiteral _ literal) =>
    match Literal.value literal with
    | .ok v => { s with literals := s.literals.file v id }
    | .error _ => s
  | some (.newInstance _ type) => { s with allocations := s.allocations.file type id }
  | _ => s

/-- The summary of a method with the given blocks. -/
def ofGraph (p : Program) (method : MethodId) (g : BlockGraph.Graph) : Summary :=
  (g.blocks.toList.flatMap (·.lines)).foldl (addLine p) { method := method }

end Summary

end SmaliTrace
