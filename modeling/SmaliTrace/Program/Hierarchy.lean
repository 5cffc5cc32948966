import SmaliTrace.Graph.Traversal
import SmaliTrace.Program.Basic

/-!
The class hierarchy: resolving methods and fields along the superclass chain, the types above and
below a class, and the methods that a virtual call may run.
-/
namespace SmaliTrace.Program
open SmaliTrace.ClassFile SmaliTrace.Smali

/-- The classes along the superclass chain from a name, among the classes of `unseen`. The walk that this
models marks no class: on a cyclic chain it goes round for ever unless it finds what it looks for, where this list ends
after one round. -/
def chainFrom (p : Program) (unseen : List Nat) (name : String) : List Nat :=
  match h : unseen.find? fun i => (p.classes[i]?.map ClassDecl.name) = some name with
  | none => []
  | some i =>
    have := List.length_erase_of_mem (List.mem_of_find?_eq_some h)
    have := List.length_pos_of_mem (List.mem_of_find?_eq_some h)
    i :: chainFrom p (unseen.erase i) ((p.classes[i]?.map ClassDecl.superName).getD "")
termination_by unseen.length

/-- The classes of the program along the superclass chain from a name, the named class first. -/
def chain (p : Program) (name : String) : List Nat := p.chainFrom (List.range p.classes.size) name

/-- The method that a reference resolves to: the nearest declaration along the superclass chain. -/
def resolveMethod? (p : Program) (r : MethodRef) : Option MethodId :=
  (p.chain r.owner).findSome? fun c =>
    (p.classes[c]?.bind fun cls => cls.methodIndex? r.name r.paramText).map (⟨c, ·⟩)

/-- The class and index of the field that a name resolves to along the superclass chain. -/
def resolveField? (p : Program) (owner name : String) : Option (Nat × Nat) :=
  (p.chain owner).findSome? fun c =>
    (p.classes[c]?.bind fun cls => cls.fieldIndex? name).map (c, ·)

/-- A field declaration. -/
def field? (p : Program) (c f : Nat) : Option FieldDecl := do
  let cls ← p.classes[c]?
  cls.fields[f]?

/-- The key of the field declaration that a reference resolves to; for a field declared elsewhere,
that of the reference itself. -/
def fieldKey (p : Program) (r : FieldRef) : String :=
  match (p.resolveField? r.owner r.name).bind fun (c, f) => p.field? c f with
  | some f => f.key
  | none => r.key

/-- The key of the field that a reference resolves to, as the class and name before and after its
arrow. -/
def fieldTarget (p : Program) (r : FieldRef) : String × String :=
  match Text.cut? "->".toList (p.fieldKey r).toList with
  | some (owner, name) => (String.ofList owner, String.ofList name)
  | none => (r.owner, r.name)

/-- The names of all classes. -/
def classNames (p : Program) : List String := p.classes.toList.map ClassDecl.name

/-- The names of the classes that name the type as their superclass or among their interfaces. -/
def directSubtypes (p : Program) (name : String) : List String :=
  (p.classes.toList.filter fun c =>
    (c.superName ≠ "" && c.superName = name) || c.interfaces.contains name).map ClassDecl.name

/-- The superclass and interfaces that a class names. -/
def directSupertypes (p : Program) (name : String) : List String :=
  match p.class? name with
  | some c => (if c.superName = "" then [] else [c.superName]) ++ c.interfaces
  | none => []

/-- The classes below a type, nearest first. -/
def subclasses (p : Program) (name : String) : List String :=
  Graph.breadthFirst p.directSubtypes (p.classNames.erase name) [name]

/-- The classes of the program above a type, nearest first. -/
def supertypes (p : Program) (name : String) : List String :=
  Graph.breadthFirst p.directSupertypes (p.classNames.erase name) [name]

/-- The method and its overrides in the classes below its own. -/
def implementations (p : Program) (id : MethodId) : List MethodId :=
  match p.method? id with
  | none => [id]
  | some m =>
    if m.isPrivate || m.isStatic || m.isConstructor then [id]
    else
      id :: (p.subclasses m.owner).filterMap fun name => p.declared? name m.name m.paramText

end SmaliTrace.Program
