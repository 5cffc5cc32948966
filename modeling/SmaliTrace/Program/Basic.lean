import SmaliTrace.ClassFile.Basic
import SmaliTrace.Log

/-!
Programs: classes in name order, one for each name, with the lookups of methods, fields and lines.
-/
namespace SmaliTrace
open SmaliTrace.ClassFile SmaliTrace.Smali

/-- A method, by the positions of its class and of itself in the class. -/
structure MethodId where
  cls : Nat
  index : Nat
deriving DecidableEq, Hashable, Repr, Inhabited

/-- A line: one of a method body, by its index there, or the declaration of a field. -/
inductive LineId where
  | body (method : MethodId) (index : Nat)
  | declaration (cls field : Nat)
deriving DecidableEq, Hashable, Repr, Inhabited

/-- The method that the line belongs to. -/
def LineId.method? : LineId → Option MethodId
  | .body m _ => some m
  | .declaration _ _ => none

/-- A basic block, by its method and its index there. -/
structure BlockId where
  method : MethodId
  index : Nat
deriving DecidableEq, Hashable, Repr, Inhabited

/-- A loaded program. -/
structure Program where
  classes : Array ClassDecl := #[]
deriving Repr, Inhabited

namespace Program

/-- Keeps the first class of each name, and reports the others. -/
def keepFirst : (kept : List ClassDecl) → List ClassDecl → List ClassDecl × List LogEntry
  | kept, [] => (kept.reverse, [])
  | kept, c :: rest =>
    match kept.find? fun k => k.name = c.name with
    | none => keepFirst (c :: kept) rest
    | some k =>
      let (classes, log) := keepFirst kept rest
      (classes, ⟨.warning, "Duplicate class " ++ c.name ++ " in " ++ c.path ++ ", keeping " ++
        k.path⟩ :: log)

/-- The program of the classes, sorted by name; of equal names the first is kept. -/
def ofClasses (classes : List ClassDecl) : Program × List LogEntry :=
  let sorted := classes.mergeSort fun a b => decide (a.name ≤ b.name)
  let (kept, log) := keepFirst [] sorted
  (⟨kept.toArray⟩, log)

/-- The position of the class with the name. -/
def classIndex? (p : Program) (name : String) : Option Nat :=
  p.classes.findIdx? fun c => c.name = name

/-- The class with the name. -/
def class? (p : Program) (name : String) : Option ClassDecl := p.classes.find? fun c => c.name = name

/-- A method of the program. -/
def method? (p : Program) (id : MethodId) : Option Method := do
  let c ← p.classes[id.cls]?
  c.methods[id.index]?

/-- The methods of one class. -/
def methodsOf (p : Program) (cls : Nat) : List MethodId :=
  match p.classes[cls]? with
  | some c => (List.range c.methods.size).map (⟨cls, ·⟩)
  | none => []

/-- All methods, in class order. -/
def methods (p : Program) : List MethodId := (List.range p.classes.size).flatMap p.methodsOf

/-- The method as messages show it. -/
def methodText (p : Program) (id : MethodId) : String := ((p.method? id).map Method.text).getD ""

/-- A line of a method body. -/
def line? (p : Program) (m : MethodId) (index : Nat) : Option CodeLine := do
  let method ← p.method? m
  method.lines[index]?

/-- A line of the program as messages show it. -/
def label (p : Program) : LineId → LineLabel
  | .body m i => ((p.method? m).bind fun method => method.lineLabel? i).getD default
  | .declaration c f =>
    ((p.classes[c]?.bind fun cls => cls.fields[f]?).map FieldDecl.lineLabel).getD default

/-- The file that a line comes from. -/
def path (p : Program) : LineId → String
  | .body m _ => (p.classes[m.cls]?.map ClassDecl.path).getD ""
  | .declaration c _ => (p.classes[c]?.map ClassDecl.path).getD ""

/-- No class declares the method that was looked up. -/
structure LookupError where
  owner : String
  name : String
  params : String
deriving DecidableEq, Repr

/-- The message of a failed lookup. -/
def LookupError.message (e : LookupError) : String :=
  e.owner ++ "->" ++ e.name ++ "(" ++ e.params ++ "): method not found"

/-- The method that the class itself declares with the name and parameters. -/
def declared? (p : Program) (owner name params : String) : Option MethodId := do
  let c ← p.classIndex? owner
  let cls ← p.classes[c]?
  let m ← cls.methodIndex? name params
  some ⟨c, m⟩

/-- The method that the class itself declares. -/
def lookup (p : Program) (owner name params : String) : Except LookupError MethodId :=
  match p.declared? owner name params with
  | some id => .ok id
  | none => .error ⟨owner, name, params⟩

/-- A class pattern that is empty or a star stands for every class. -/
def isAnyClass (owner : String) : Bool := owner = "" || owner = "*"

/-- The declared methods that match the class pattern, the name, and the parameters unless these are
empty. -/
def findMethods (p : Program) (owner name params : String) : List MethodId :=
  p.methods.filter fun id =>
    match p.classes[id.cls]?, p.method? id with
    | some c, some m =>
      (isAnyClass owner || c.name = owner) && m.name = name &&
        (params = "" || m.paramText = params)
    | _, _ => false

end Program

end SmaliTrace
