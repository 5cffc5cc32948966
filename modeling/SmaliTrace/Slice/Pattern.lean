import SmaliTrace.Index.Basic

/-!
What a slice is asked for.
-/
namespace SmaliTrace.Slice
open SmaliTrace.Smali

/-- Where do the values reaching a call argument, or a method's result, come from? An empty class or a
star matches any class, empty parameters any overload; a start line replaces the search for seeds. -/
structure BackwardPattern where
  owner : String := ""
  method : String := ""
  params : String := ""
  param : Int := 0
  trackReturn : Bool := false
  start : Option LineId := none
deriving DecidableEq, Repr, Inhabited

namespace BackwardPattern

/-- The pattern as messages show it. -/
def text (p : BackwardPattern) : String :=
  if p.trackReturn then "return of " ++ p.owner ++ "->" ++ p.method ++ "(" ++ p.params ++ ")"
  else p.owner ++ "->" ++ p.method ++ "(" ++ p.params ++ ") param " ++ toString p.param

/-- The reference is one that the pattern asks for. -/
def accepts (p : BackwardPattern) (r : MethodRef) : Bool :=
  r.name = p.method && Index.refMatches p.owner p.params r

end BackwardPattern

/-- Where does a value go? The first of the three seeds that is given counts: an allocated type, the
result of a call, or a literal. -/
structure ForwardPattern where
  objectType : String := ""
  owner : String := ""
  method : String := ""
  params : String := ""
  literal : String := ""
deriving DecidableEq, Repr, Inhabited

/-- The pattern as messages show it. -/
def ForwardPattern.text (p : ForwardPattern) : String :=
  if p.objectType ≠ "" then "new " ++ p.objectType
  else if p.method ≠ "" then "result of " ++ p.owner ++ "->" ++ p.method ++ "(" ++ p.params ++ ")"
  else "literal " ++ Text.quote p.literal

end SmaliTrace.Slice
