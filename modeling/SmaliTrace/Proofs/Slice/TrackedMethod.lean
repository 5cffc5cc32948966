import SmaliTrace.Proofs.ClassFile.Declarations
import SmaliTrace.Proofs.Index.Sites
import SmaliTrace.Slice.Search

/-!
From a method to its reference and back. A reference, and the tracker of the values that a method returns, lead to
the first method of the class with the name and parameters: the result type is not looked at.
-/
namespace SmaliTrace
open SmaliTrace.ClassFile SmaliTrace.Smali

namespace Program

variable {p : Program} {id : MethodId} {m : Method}

/-- No method that its class declares earlier has the name and parameters of the method. -/
def IsFirst (p : Program) (id : MethodId) (m : Method) : Prop :=
  ∀ k < id.index, ∀ earlier, p.method? ⟨id.cls, k⟩ = some earlier →
    ¬ (earlier.name = m.name ∧ earlier.paramText = m.paramText)

/-- The class of a method finds the first one with its name and parameters. -/
theorem exists_methodIndex? {c : ClassDecl} (isClass : p.classes[id.cls]? = some c)
    (isMethod : c.methods[id.index]? = some m) :
    ∃ first ≤ id.index, c.methodIndex? m.name m.paramText = some first ∧ (first = id.index ↔ p.IsFirst id m) := by
  obtain ⟨bound, here⟩ := Array.getElem?_eq_some_iff.mp isMethod
  have named : c.methods[id.index].isNamed m.name m.paramText = true := by simp [here, Method.isNamed]
  have present : (c.methodIndex? m.name m.paramText).isSome := by
    rw [ClassDecl.methodIndex?, Array.findIdx?_isSome, Array.any_eq_true']
    exact ⟨_, Array.getElem_mem bound, named⟩
  obtain ⟨first, found⟩ := Option.isSome_iff_exists.mp present
  obtain ⟨bound', named', earlier⟩ := Array.findIdx?_eq_some_iff_getElem.mp found
  have within : first ≤ id.index := by
    by_contra beyond
    exact absurd named (earlier id.index (by omega))
  refine ⟨first, within, found, ?_⟩
  constructor
  · rintro rfl k before other isOther ⟨name, params⟩
    have other' : c.methods[k]? = some other := by simpa [method?, isClass] using isOther
    obtain ⟨bound'', there⟩ := Array.getElem?_eq_some_iff.mp other'
    exact earlier k before (by simp [there, Method.isNamed, name, params])
  · intro isFirst
    by_contra differs
    have other : p.method? ⟨id.cls, first⟩ = some c.methods[first] := by simp [method?, isClass, bound']
    exact isFirst first (by omega) _ other (by simpa [Method.isNamed] using named')

/-- What the class of a reference declares itself is what the reference resolves to. -/
theorem WellFormed.resolveMethod?_eq_declared? (wf : p.WellFormed) {r : MethodRef}
    (declares : p.declared? r.owner r.name r.paramText = some id) : p.resolveMethod? r = some id := by
  have named := nameAt_of_declared? declares
  rw [wf.declared?_eq named] at declares
  have member : id.cls ∈ List.range p.classes.size := by
    obtain ⟨c, isClass, -⟩ := Option.map_eq_some_iff.mp named
    exact List.mem_range.mpr (Array.getElem?_eq_some_iff.mp isClass).1
  rw [resolveMethod?, chain, chainFrom]
  split
  · next absent =>
    have := List.find?_eq_none.mp absent _ member
    simp [show p.classes[id.cls]?.map ClassDecl.name = some r.owner from named] at this
  · next i found =>
    have named' : p.nameAt i = some r.owner := by simpa [nameAt] using List.find?_some found
    obtain rfl := wf.eq_of_nameAt named' named
    rw [List.findSome?_cons, declares]

/-- The reference to a method of a well-formed program leads to the first method of its class with its name and
parameters. -/
theorem WellFormed.exists_first (wf : p.WellFormed) (isMethod : p.method? id = some m) :
    ∃ first ≤ id.index, p.declared? m.owner m.name m.paramText = some ⟨id.cls, first⟩ ∧
      p.resolveMethod? m.ref = some ⟨id.cls, first⟩ ∧ (first = id.index ↔ p.IsFirst id m) := by
  obtain ⟨c, isClass, inside⟩ := Option.bind_eq_some_iff.mp isMethod
  obtain ⟨first, within, found, isFirst⟩ := exists_methodIndex? isClass inside
  have declares : p.declared? m.owner m.name m.paramText = some ⟨id.cls, first⟩ := by
    rw [wf.declared?_eq (wf.owner_eq isMethod), isClass, Option.bind_some, found]
    rfl
  exact ⟨first, within, declares, wf.resolveMethod?_eq_declared? declares, isFirst⟩

end Program

namespace Slice

theorem endsWith_append_singleton (s : List Char) : Text.endsWith ")" (s ++ [')']) = true := by
  simp [Text.endsWith]

/-- The tracker that names a declared method leads to what its class declares with its name and parameters. -/
theorem trackedMethod?_of_declared {m : Method} (declared : m.Declared) (x : Context) {c : ContentSearch}
    (owner : c.owner = m.owner) (identifier : c.identifier = m.identifier) :
    trackedMethod? x c = x.program.declared? m.owner m.name m.paramText := by
  have cut : Text.cut? ['('] c.identifier.toList = some (m.name.toList, m.paramText.toList ++ [')']) := by
    have text : c.identifier.toList = m.name.toList ++ '(' :: (m.paramText.toList ++ [')']) := by
      simp [identifier, Method.identifier, String.toList_append]
    rw [text]
    exact Text.cut?_append_cons declared.name _
  simp only [trackedMethod?, cut, endsWith_append_singleton, if_true, List.dropLast_concat, String.ofList_toList, owner]

/-- The reference to a method, and the tracker of the values that the method returns, lead to one method: the first one
of its class that has its name and parameters. That is the method itself unless an earlier one has both, whatever it
returns. -/
theorem resolveMethod?_ref_eq_trackedMethod? (classes : List ClassDecl)
    (parsed : ∀ c ∈ classes, ∃ path text, ClassFile.parse path text = .ok c) (id : MethodId) (m : Method)
    (isMethod : (Program.ofClasses classes).1.method? id = some m) (x : Context)
    (loaded : x.program = (Program.ofClasses classes).1) (r : RegisterSearch) (cursor : Cursor) (line : LineId)
    (register : Register) (offset : Int) :
    ∃ first ≤ id.index, ∃ named, (Program.ofClasses classes).1.method? ⟨id.cls, first⟩ = some named ∧
      named.owner = m.owner ∧ named.name = m.name ∧ named.params = m.params ∧
      (Program.ofClasses classes).1.resolveMethod? m.ref = some ⟨id.cls, first⟩ ∧
      trackedMethod? x (contentFrom r cursor line m.owner m.identifier register offset) = some ⟨id.cls, first⟩ ∧
      (first = id.index ↔ (Program.ofClasses classes).1.IsFirst id m) := by
  have wf := Program.wellFormed_ofClasses parsed
  have described := Program.described_ofClasses parsed
  obtain ⟨first, within, declares, resolves, isFirst⟩ := wf.exists_first isMethod
  obtain ⟨named, isNamed, name, params⟩ := Program.method?_of_declared? declares
  refine ⟨first, within, named, isNamed, ?_, name, ?_, resolves, ?_, isFirst⟩
  · have one := wf.owner_eq isNamed
    have other := wf.owner_eq isMethod
    exact Option.some.inj (one.symm.trans other)
  · exact MethodRef.Described.params_eq (described.method? isNamed).ref (described.method? isMethod).ref params
  · rw [trackedMethod?_of_declared (Program.declared_ofClasses parsed isMethod) x rfl rfl, loaded]
    exact declares

/-! ### Methods that differ in their result only -/

/-- A class file that declares a method with two results, and an overload of it. -/
def bridgedText : String :=
  ".class LBox;\n.method abstract get()LKey;\n.end method\n.method abstract get()J\n.end method\n" ++
    ".method abstract get(I)J\n.end method\n"

/-- The method of that class with the given parameters and result. -/
def bridgedGet (params : List String) (result : String) : Method where
  owner := "LBox;"
  name := "get"
  params := params
  result := result
  flags := [.abstract]

/-- The class of that file. -/
def bridgedClass : ClassDecl where
  name := "LBox;"
  path := "Box.smali"
  methods := #[bridgedGet [] "LKey;", bridgedGet [] "J", bridgedGet ["I"] "J"]

theorem parse_bridged : ∀ c ∈ [bridgedClass], ∃ path text, ClassFile.parse path text = .ok c := by
  intro c isClass
  obtain rfl := List.mem_singleton.mp isClass
  have text : bridgedText.toList = _ :=
    String.toList_append.trans (congrArg₂ (· ++ ·) String.toList_ofList String.toList_ofList)
  refine ⟨"Box.smali", bridgedText, ?_⟩
  rw [ClassFile.parse, text]
  decide +kernel

theorem ofClasses_bridged : (Program.ofClasses [bridgedClass]).1 = ⟨#[bridgedClass]⟩ := Program.ofClasses_singleton _

/-- The surroundings of a search through that class. -/
def bridgedContext : Context where
  index := (Index.ofProgram (Program.ofClasses [bridgedClass]).1 []).index
  options := .default
  search := 0
  forward := false
  pattern := none

theorem program_bridgedContext : bridgedContext.program = (Program.ofClasses [bridgedClass]).1 :=
  Index.program_ofProgram ..

/-- The tracker of what a method of that class returns. -/
def bridgedTracker (m : Method) : ContentSearch :=
  contentFrom default default default m.owner m.identifier "v0" 0

/-- The reference to the second method leads to the first one, which has another result, and so does its tracker. -/
theorem bridged_misled :
    (∀ c ∈ [bridgedClass], ∃ path text, ClassFile.parse path text = .ok c) ∧
      (bridgedClass.methods.toList.map fun m => (m.name, m.params, m.result)).Nodup ∧
      (Program.ofClasses [bridgedClass]).1.method? ⟨0, 1⟩ = some (bridgedGet [] "J") ∧
      (Program.ofClasses [bridgedClass]).1.resolveMethod? (bridgedGet [] "J").ref ≠ some ⟨0, 1⟩ ∧
      trackedMethod? bridgedContext (bridgedTracker (bridgedGet [] "J")) ≠ some ⟨0, 1⟩ := by
  have wf := Program.wellFormed_ofClasses parse_bridged
  have isMethod : (Program.ofClasses [bridgedClass]).1.method? ⟨0, 1⟩ = some (bridgedGet [] "J") := by
    rw [ofClasses_bridged]
    rfl
  have declares : (Program.ofClasses [bridgedClass]).1.declared? "LBox;" "get" "" = some ⟨0, 0⟩ := by
    rw [ofClasses_bridged]
    decide +kernel
  have resolves : (Program.ofClasses [bridgedClass]).1.resolveMethod? (bridgedGet [] "J").ref = some ⟨0, 0⟩ :=
    wf.resolveMethod?_eq_declared? declares
  have tracked : trackedMethod? bridgedContext (bridgedTracker (bridgedGet [] "J")) = some ⟨0, 0⟩ := by
    rw [trackedMethod?_of_declared (Program.declared_ofClasses parse_bridged isMethod) _ rfl rfl,
      program_bridgedContext]
    exact declares
  refine ⟨parse_bridged, by decide, isMethod, ?_, ?_⟩
  · rw [resolves]
    decide
  · rw [tracked]
    decide

/-- The overload is led to by its reference and by its tracker: no earlier method has its parameters. -/
theorem overload_tracked :
    (∀ c ∈ [bridgedClass], ∃ path text, ClassFile.parse path text = .ok c) ∧
      (Program.ofClasses [bridgedClass]).1.method? ⟨0, 2⟩ = some (bridgedGet ["I"] "J") ∧
      bridgedContext.program = (Program.ofClasses [bridgedClass]).1 ∧
      (Program.ofClasses [bridgedClass]).1.resolveMethod? (bridgedGet ["I"] "J").ref = some ⟨0, 2⟩ ∧
      trackedMethod? bridgedContext (bridgedTracker (bridgedGet ["I"] "J")) = some ⟨0, 2⟩ := by
  have isMethod : (Program.ofClasses [bridgedClass]).1.method? ⟨0, 2⟩ = some (bridgedGet ["I"] "J") := by
    rw [ofClasses_bridged]
    rfl
  obtain ⟨first, -, named, -, -, -, -, resolves, tracked, isFirst⟩ :=
    resolveMethod?_ref_eq_trackedMethod? [bridgedClass] parse_bridged ⟨0, 2⟩ (bridgedGet ["I"] "J") isMethod
      bridgedContext program_bridgedContext default default default "v0" 0
  have itself : first = 2 := by
    refine isFirst.mpr ?_
    intro k before earlier isEarlier same
    rw [ofClasses_bridged] at isEarlier
    rcases Nat.lt_succ_iff_lt_or_eq.mp before with first | rfl
    · obtain rfl : k = 0 := by omega
      cases isEarlier
      exact absurd same.2 (by decide)
    · cases isEarlier
      exact absurd same.2 (by decide)
  subst itself
  exact ⟨parse_bridged, isMethod, program_bridgedContext, resolves, tracked⟩

end Slice

end SmaliTrace
