/-!
Access flags of classes, fields and methods.
-/
namespace SmaliTrace.ClassFile

/-- An access flag. -/
inductive AccessFlag where
  | «public»
  | «private»
  | «protected»
  | static
  | final
  | synchronized
  | volatile
  | bridge
  | transient
  | varargs
  | native
  | interface
  | «abstract»
  | strict
  | synthetic
  | annotationType
  | enum
  | constructor
  | declaredSynchronized
deriving DecidableEq, Repr

namespace AccessFlag

/-- The words of the flags, in the order of their bits. -/
def table : List (String × AccessFlag) := [
  ("public", .public), ("private", .private), ("protected", .protected), ("static", .static),
  ("final", .final), ("synchronized", .synchronized), ("volatile", .volatile),
  ("bridge", .bridge), ("transient", .transient), ("varargs", .varargs), ("native", .native),
  ("interface", .interface), ("abstract", .abstract), ("strictfp", .strict),
  ("synthetic", .synthetic), ("annotation", .annotationType), ("enum", .enum),
  ("constructor", .constructor), ("declared-synchronized", .declaredSynchronized)]

/-- The flag that a word names. -/
def ofWord? (word : List Char) : Option AccessFlag :=
  (table.find? fun (name, _) => name.toList = word).map (·.2)

/-- The number of the flag's bit. -/
def bit (flag : AccessFlag) : Nat := (table.map (·.2)).idxOf flag

end AccessFlag

/-- Splits the leading flag words off. -/
def splitFlags : List (List Char) → List AccessFlag × List (List Char)
  | [] => ([], [])
  | word :: rest =>
    match AccessFlag.ofWord? word with
    | none => ([], word :: rest)
    | some flag =>
      let (flags, rest) := splitFlags rest
      (flag :: flags, rest)

/-- The flags as a bit set. -/
def flagBits (flags : List AccessFlag) : Nat :=
  flags.foldl (fun bits flag => bits ||| (1 <<< flag.bit)) 0

end SmaliTrace.ClassFile
