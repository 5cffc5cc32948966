import SmaliTrace.Smali.Error

/-!
Type descriptors and the references to fields and methods that are made of them.
-/
namespace SmaliTrace.Smali

/-- The type is a long or a double, whose values take two registers. -/
def isWideType (type : String) : Bool := type = "J" || type = "D"

/-- The number of registers that a value of the type takes. -/
def slotSize (type : String) : Nat := if isWideType type then 2 else 1

/-- The number of registers that values of the types take together. -/
def slotCount : List String → Nat
  | [] => 0
  | type :: types => slotSize type + slotCount types

/-- The type is an array. -/
def isArrayType (type : String) : Bool := Text.startsWith "[" type.toList

/-- A reference to a field, `owner->name:type`. -/
structure FieldRef where
  owner : String
  name : String
  type : String
deriving DecidableEq, Repr, Inhabited

namespace FieldRef

/-- The field without its type. -/
def key (f : FieldRef) : String := f.owner ++ "->" ++ f.name

/-- The reference as it is written. -/
def text (f : FieldRef) : String := f.key ++ ":" ++ f.type

/-- Reads `owner->name:type`; the owner is not empty and the last colon stands after the arrow. -/
def parse (s : List Char) : Except DecodeError FieldRef :=
  match Text.cut? "->".toList s with
  | none => fail s .malformedField
  | some (owner, member) =>
    if owner.isEmpty then fail s .malformedField
    else
      match Text.cutLast? ':' member with
      | none => fail s .malformedField
      | some (name, type) =>
        .ok ⟨String.ofList owner, String.ofList name, String.ofList type⟩

end FieldRef

/-- The letters of the primitive types. -/
def primitiveLetters : List Char := "ZBSCIJFDV".toList

/-- Splits one descriptor off: any number of brackets, then a primitive letter, or a class name up to
its first semicolon. `whole` is the list that messages show. -/
def splitDescriptor (whole : List Char) :
    List Char → Except DecodeError (List Char × List Char)
  | [] => fail whole .danglingArray
  | '[' :: rest => do
    let (element, rest) ← splitDescriptor whole rest
    .ok ('[' :: element, rest)
  | 'L' :: rest =>
    match Text.cut? [';'] rest with
    | none => fail whole .unterminatedClass
    | some (name, after) => .ok ('L' :: name ++ [';'], after)
  | c :: rest => if c ∈ primitiveLetters then .ok ([c], rest) else fail whole (.badDescriptor c)

theorem eq_append_of_splitDescriptor {whole s type rest : List Char}
    (h : splitDescriptor whole s = .ok (type, rest)) : s = type ++ rest ∧ type ≠ [] := by
  fun_induction splitDescriptor whole s generalizing type with
  | case1 => simp [fail] at h
  | case2 s ih =>
    cases found : splitDescriptor whole s with
    | error e => simp [found, bind, Except.bind] at h
    | ok parts =>
      simp only [found, bind, Except.bind, Except.ok.injEq, Prod.mk.injEq] at h
      obtain ⟨rfl, rfl⟩ := h
      simp [(ih found).1]
  | case3 => simp [fail] at h
  | case4 s name after found =>
    simp only [Except.ok.injEq, Prod.mk.injEq] at h
    obtain ⟨rfl, rfl⟩ := h
    simp [Text.eq_of_cut? found]
  | case5 c s _ _ member => simp at h; simp [← h.1, ← h.2]
  | case6 => simp [fail] at h

/-- Splits the rest of a descriptor list, `whole`, into its types. -/
def splitTypesFrom (whole s : List Char) : Except DecodeError (List String) :=
  if s.isEmpty then .ok []
  else
    match h : splitDescriptor whole s with
    | .error e => .error e
    | .ok (type, rest) =>
      have : rest.length < s.length := by
        obtain ⟨eq, nonempty⟩ := eq_append_of_splitDescriptor h
        have := List.length_pos_iff.mpr nonempty
        simp [eq]; omega
      do
        let types ← splitTypesFrom whole rest
        .ok (String.ofList type :: types)
termination_by s.length

/-- Splits a concatenated descriptor list into its types. -/
def splitTypes (s : List Char) : Except DecodeError (List String) := splitTypesFrom s s

/-- A reference to a method, `owner->name(params)result`. -/
structure MethodRef where
  owner : String
  name : String
  params : List String
  result : String
deriving DecidableEq, Repr, Inhabited

namespace MethodRef

/-- The parameter types as they stand between the parentheses. -/
def paramText (m : MethodRef) : String := String.join m.params

/-- The method without its result type. -/
def signature (m : MethodRef) : String :=
  m.owner ++ "->" ++ m.name ++ "(" ++ m.paramText ++ ")"

/-- The reference as it is written. -/
def text (m : MethodRef) : String := m.signature ++ m.result

/-- Reads `name(params)result`; the first closing parenthesis stands after the first opening one. -/
def parseMember (owner s : List Char) : Except DecodeError MethodRef :=
  match Text.cut? ['('] s with
  | none => fail s .malformedMethod
  | some (name, inside) =>
    if name.isEmpty || name.contains ')' then fail s .malformedMethod
    else
      match Text.cut? [')'] inside with
      | none => fail s .malformedMethod
      | some (params, result) => do
        let types ← splitTypes params
        .ok ⟨String.ofList owner, String.ofList name, types, String.ofList result⟩

/-- Reads a method reference; the owner and its arrow may be missing, as in a declaration. -/
def parse (s : List Char) : Except DecodeError MethodRef :=
  match Text.cut? "->".toList s with
  | none => parseMember [] s
  | some (owner, member) => parseMember owner member

end MethodRef

end SmaliTrace.Smali
