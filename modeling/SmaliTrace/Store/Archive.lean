import SmaliTrace.Store.Basic
import SmaliTrace.Text.Lines
import SmaliTrace.Text.Quoted

/-!
Databases as texts: a line for each key and, behind it, one for its value, both quoted.
-/
namespace SmaliTrace.Store.Archive
open SmaliTrace.Text (Octets)

/-- The first line of every archive with a bucket. -/
def header : String := "result archive 2"

/-- The first line of an archive without one. -/
def bare : String := "result archive 2 without bucket"

/-- The text of a database. -/
def write (d : Database) : String :=
  let ls :=
    match d.bucket with
    | none => [bare]
    | some entries => header :: entries.flatMap fun (e : Octets × Octets) => [e.1.quote, e.2.quote]
  String.join (ls.map (· ++ "\n"))

/-- The entries on the lines. -/
def entries? : List String → Option (List (Octets × Octets))
  | [] => some []
  | [_] => none
  | key :: value :: rest => do
    let key ← Text.unquoteText? key.toList
    let value ← Text.unquoteText? value.toList
    let rest ← entries? rest
    some ((key, value) :: rest)

/-- The database that a text holds, if it is an archive. -/
def read? (s : String) : Option Database :=
  match (Text.lines s.toList).map String.ofList with
  | [] => none
  | first :: rest =>
    if first = header then (entries? rest).map fun es => ⟨some es⟩
    else if first = bare then some {}
    else none

end SmaliTrace.Store.Archive
