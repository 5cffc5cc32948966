import SmaliTrace.Counters
import SmaliTrace.Index.Summary

/-!
The index of a program: the block graph and summary of every analyzed method, and queries over all of
them. Methods of excluded classes and broken methods are treated like library code.
-/
namespace SmaliTrace
open SmaliTrace.ClassFile SmaliTrace.Smali
open SmaliTrace.Text (Octets)

/-- What preparation makes of a method: nothing for an excluded one, else its blocks or its fault. -/
inductive Prepared where
  | skipped
  | broken (fault : BlockGraph.MethodFault)
  | built (graph : BlockGraph.Graph)
deriving DecidableEq, Repr, Inhabited

/-- The program with the prepared methods and the tables over all summaries. -/
structure Index where
  program : Program
  prepared : Std.HashMap MethodId Prepared := {}
  summaries : Array Summary := #[]
  callSites : LineTable String := {}
  puts : LineTable String := {}
  gets : LineTable String := {}
  literals : LineTable Octets := {}
  allocations : LineTable String := {}

namespace Index

/-- Appends the lines of one table to another. -/
def merge {κ : Type} [BEq κ] [Hashable κ] (t u : LineTable κ) : LineTable κ :=
  u.fold (fun t key lines => t.insert key (t.lines key ++ lines)) t

/-- The name of the method that a line calls. -/
def calleeName (p : Program) : LineId → String
  | .body m i =>
    (((p.line? m i).bind fun l => l.operation.method?).map MethodRef.name).getD ""
  | .declaration _ _ => ""

/-- Adds the summary of a method. -/
def add (x : Index) (s : Summary) : Index :=
  { x with
    summaries := x.summaries.push s
    callSites := s.invokes.foldl (fun t id => t.file (calleeName x.program id) id) x.callSites
    puts := merge x.puts s.puts
    gets := merge x.gets s.gets
    literals := merge x.literals s.literals
    allocations := merge x.allocations s.allocations }

/-- The class name starts with one of the excluded texts. -/
def isExcluded (excluded : List String) (c : ClassDecl) : Bool :=
  excluded.any fun e => Text.startsWith e c.name.toList

/-- The methods of the classes that are not excluded. -/
def candidates (p : Program) (excluded : List String) : List MethodId :=
  (List.range p.classes.size).flatMap fun c =>
    match p.classes[c]? with
    | some cls => if isExcluded excluded cls then [] else p.methodsOf c
    | none => []

/-- The state of preparation: the prepared methods, the counters and the log. -/
structure Preparation where
  prepared : Std.HashMap MethodId Prepared := {}
  tally : Tally := {}
  log : List LogEntry := []

/-- Prepares one method. A method that kept no line is not looked at further. -/
def Preparation.visit (p : Program) (s : Preparation) (id : MethodId) : Preparation :=
  let tally := s.tally.bump .methods
  match p.method? id with
  | none => s
  | some m =>
    if m.lines.isEmpty then
      let outcome : Prepared :=
        match m.fault with
        | some fault => .broken (.body fault)
        | none => .built {}
      { s with prepared := s.prepared.insert id outcome, tally := tally }
    else
      match BlockGraph.ofMethod m with
      | .error fault =>
        { prepared := s.prepared.insert id (.broken fault)
          tally := tally.bump .excludedMethods
          log := s.log ++ [⟨.warning, "Excluding " ++ m.text ++ ": " ++ fault.message⟩] }
      | .ok g =>
        let tally := tally.add .blocks g.blocks.size
        { s with
          prepared := s.prepared.insert id (.built g)
          tally := if g.unlinked then tally.bump .unlinkedMethods else tally }

/-- The block graph of a method, if it was built. -/
def graph? (x : Index) (id : MethodId) : Option BlockGraph.Graph :=
  match x.prepared[id]? with
  | some (.built g) => some g
  | _ => none

/-- The fault of a method: from decoding, or from building its blocks. -/
def fault? (x : Index) (id : MethodId) : Option BlockGraph.MethodFault :=
  match x.prepared[id]? with
  | some (.broken fault) => some fault
  | some (.built _) => none
  | _ => ((x.program.method? id).bind Method.fault).map .body

/-- The method has an analyzable block graph. -/
def hasBody (x : Index) (id : MethodId) : Bool :=
  match x.graph? id with
  | some g => !g.blocks.isEmpty
  | none => false

/-- The outcome of preparing a program. -/
structure Result where
  index : Index
  tally : Tally
  log : List LogEntry

/-- Prepares a program: builds the blocks of every method of the classes that are not excluded, and
indexes the summaries in program order. -/
def ofProgram (p : Program) (excluded : List String) : Result :=
  let included := p.classes.toList.countP fun c => !isExcluded excluded c
  let methods := candidates p excluded
  let start : Preparation := { tally := ({} : Tally).add .classes included }
  let s := methods.foldl (Preparation.visit p) start
  let base : Index := { program := p, prepared := s.prepared }
  let index := methods.foldl (fun x id =>
    match base.graph? id with
    | some g => if g.blocks.isEmpty then x else x.add (Summary.ofGraph p id g)
    | none => x) base
  { index := index
    tally := s.tally
    log := s.log ++ [⟨.info, "Preprocessed " ++ toString methods.length ++ " methods, " ++
      toString index.summaries.size ++ " analyzable"⟩] }

/-- The summary of a method. -/
def summary? (x : Index) (id : MethodId) : Option Summary := x.summaries.find? fun s => s.method = id

/-- The method has a summary. -/
def isAnalyzed (x : Index) (id : MethodId) : Bool := (x.summary? id).isSome

/-- The lines of a method that return a value. -/
def returns (x : Index) (id : MethodId) : List LineId :=
  match x.summary? id with
  | some s => s.returns.toList
  | none => []

/-- The method that a call dispatches to statically, if it is analyzed, native or abstract. -/
def resolve? (x : Index) (r : MethodRef) : Option MethodId := do
  let id ← x.program.resolveMethod? r
  let m ← x.program.method? id
  if x.isAnalyzed id || m.isNative || m.isAbstract then some id else none

/-- The analyzed bodies that a call resolving to the method may run. -/
def implementations (x : Index) (id : MethodId) : List MethodId :=
  (x.program.implementations id).filter x.isAnalyzed

/-- The method reference that a line calls. -/
def callee? (x : Index) : LineId → Option MethodRef
  | .body m i => (x.program.line? m i).bind fun l => l.operation.method?
  | .declaration _ _ => none

/-- The reference is written against the class pattern, and with the parameters unless these are
empty. -/
def refMatches (owner params : String) (r : MethodRef) : Bool :=
  (Program.isAnyClass owner || r.owner = owner) && (params = "" || r.paramText = params)

/-- The calls whose written reference matches the class pattern, the name and the parameters. -/
def callSitesMatching (x : Index) (owner name params : String) : List LineId :=
  (x.callSites.lines name).toList.filter fun id =>
    match x.callee? id with
    | some r => refMatches owner params r
    | none => false

/-- The classes whose call sites may dispatch to a method: its own, subclasses that inherit it, and,
for virtual methods, supertypes that declare it. -/
def callSiteOwners (x : Index) (id : MethodId) (m : Method) : List String :=
  let p := x.program
  if m.isPrivate || m.isConstructor then [m.owner]
  else
    let inheriting := (p.subclasses m.owner).filter fun sub =>
      if m.isAbstract then (p.declared? sub m.name m.paramText).isNone
      else p.resolveMethod? { m.ref with owner := sub } = some id
    let declaring :=
      if m.isStatic then []
      else (p.supertypes m.owner).filter fun sup => (p.declared? sup m.name m.paramText).isSome
    m.owner :: inheriting ++ declaring

/-- Every call that may dispatch to the method, each once. -/
def callSitesOf (x : Index) (id : MethodId) : List LineId :=
  match x.program.method? id with
  | none => []
  | some m =>
    ((x.callSiteOwners id m).flatMap fun owner =>
      x.callSitesMatching owner m.name m.paramText).eraseDups

/-- The stores to the field with the key. -/
def fieldWrites (x : Index) (key : String) : List LineId := (x.puts.lines key).toList

/-- The loads of the field with the key. -/
def fieldReads (x : Index) (key : String) : List LineId := (x.gets.lines key).toList

/-- The loads of a literal, given in normal form. -/
def literalSites (x : Index) (value : Octets) : List LineId := (x.literals.lines value).toList

/-- The allocations of a type. -/
def allocationSites (x : Index) (type : String) : List LineId := (x.allocations.lines type).toList

/-- A block of the program. -/
def block? (x : Index) (id : BlockId) : Option BlockGraph.Block := do
  let g ← x.graph? id.method
  g.blocks[id.index]?

/-- The block of a line, with the position of the line in it. -/
def locate? (x : Index) : LineId → Option (BlockId × Nat)
  | .body m i => do
    let g ← x.graph? m
    let (b, position) ← g.locate? i
    some (⟨m, b⟩, position)
  | .declaration _ _ => none

end Index

end SmaliTrace
