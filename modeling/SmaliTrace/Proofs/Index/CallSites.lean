import SmaliTrace.Proofs.Index.Sites
import SmaliTrace.Proofs.Program.Hierarchy

/-!
The call sites of a method. Every call of an analyzed method is filed under the name that it calls, so the
calls that may run a body are found again from that body: those of the method that a call resolves to, and
those of what overrides it, if they are written against the class that declares it.
-/
namespace SmaliTrace
open SmaliTrace.ClassFile SmaliTrace.Smali

/-! ### Filed calls -/

namespace Summary

variable {p : Program} {s : Summary}

@[simp] theorem method_addLine (p : Program) (s : Summary) (i : Nat) : (s.addLine p i).method = s.method := by
  unfold addLine
  split <;> try rfl
  split <;> rfl

theorem invokes_subset_addLine (p : Program) (s : Summary) (i : Nat) :
    ∀ l ∈ s.invokes, l ∈ (s.addLine p i).invokes := by
  intro l inside
  unfold addLine
  split <;> try exact inside
  · exact Array.mem_push_of_mem _ inside
  · split <;> exact inside

theorem mem_invokes_addLine {i : Nat} {line : CodeLine} {args : List Register} {ref : MethodRef}
    (isLine : p.line? s.method i = some line) (calls : line.operation = .invoke args ref) :
    .body s.method i ∈ (s.addLine p i).invokes := by
  simp [addLine, isLine, calls]

/-- The summary of a method lists all calls among the lines of its blocks. -/
private theorem foldl_addLine_spec (p : Program) (lines : List Nat) (s : Summary) :
    (lines.foldl (addLine p) s).method = s.method ∧
      (∀ l ∈ s.invokes, l ∈ (lines.foldl (addLine p) s).invokes) ∧
      ∀ i ∈ lines, ∀ line args ref, p.line? s.method i = some line → line.operation = .invoke args ref →
        .body s.method i ∈ (lines.foldl (addLine p) s).invokes := by
  induction lines generalizing s with
  | nil => simp
  | cons j lines ih =>
    obtain ⟨same, grows, lists⟩ := ih (s.addLine p j)
    rw [method_addLine] at same lists
    refine ⟨same, fun l inside => grows l (invokes_subset_addLine p s j l inside), ?_⟩
    intro i inside line args ref isLine calls
    rcases List.mem_cons.mp inside with rfl | later
    · exact grows _ (mem_invokes_addLine isLine calls)
    · exact lists i later line args ref isLine calls

@[simp] theorem method_ofGraph (p : Program) (id : MethodId) (g : BlockGraph.Graph) :
    (ofGraph p id g).method = id :=
  (foldl_addLine_spec p _ _).1

theorem mem_invokes_ofGraph {id : MethodId} {g : BlockGraph.Graph} {block : BlockGraph.Block} {i : Nat}
    {line : CodeLine} {args : List Register} {ref : MethodRef} (isBlock : block ∈ g.blocks)
    (inside : i ∈ block.lines) (isLine : p.line? id i = some line) (calls : line.operation = .invoke args ref) :
    .body id i ∈ (ofGraph p id g).invokes := by
  refine (foldl_addLine_spec p _ { method := id }).2.2 i ?_ line args ref isLine calls
  exact List.mem_flatMap.mpr ⟨block, by simpa using isBlock, inside⟩

end Summary

namespace Index

variable {x : Index} {p : Program}

/-- Every summary is that of a method with blocks, and its calls are filed. -/
private structure Filed (p : Program) (base x : Index) : Prop where
  program : x.program = p
  prepared : x.prepared = base.prepared
  made : ∀ s ∈ x.summaries, ∃ id g, base.graph? id = some g ∧ g.blocks ≠ #[] ∧ s = Summary.ofGraph p id g
  calls : ∀ s ∈ x.summaries, ∀ l ∈ s.invokes, l ∈ x.callSites.lines (calleeName p l)

private theorem filed_add {base : Index} {id : MethodId} {g : BlockGraph.Graph} (filed : Filed p base x)
    (graph : base.graph? id = some g) (blocks : g.blocks ≠ #[]) :
    Filed p base (x.add (Summary.ofGraph p id g)) := by
  have table : ∀ {l key}, l ∈ (x.add (Summary.ofGraph p id g)).callSites.lines key ↔
      l ∈ x.callSites.lines key ∨ (l ∈ (Summary.ofGraph p id g).invokes ∧ key = calleeName p l) := by
    intro l key
    simp only [add, filed.program, ← Array.foldl_toList]
    rw [← Array.mem_toList_iff, toList_lines_foldl_file, List.mem_append, List.mem_filter, Array.mem_toList_iff,
      Array.mem_toList_iff, beq_iff_eq, @eq_comm _ key]
  refine ⟨filed.program, filed.prepared, ?_, ?_⟩
  · intro s inside
    rcases Array.mem_push.mp inside with before | rfl
    · exact filed.made s before
    · exact ⟨id, g, graph, blocks, rfl⟩
  · intro s inside l listed
    rw [table]
    rcases Array.mem_push.mp inside with before | rfl
    · exact .inl (filed.calls s before l listed)
    · exact .inr ⟨listed, rfl⟩

private theorem filed_foldl {base : Index} (methods : List MethodId) (filed : Filed p base x) :
    Filed p base (methods.foldl (fun x id =>
      match base.graph? id with
      | some g => if g.blocks.isEmpty then x else x.add (Summary.ofGraph p id g)
      | none => x) x) := by
  induction methods generalizing x with
  | nil => exact filed
  | cons id methods ih =>
    rw [List.foldl_cons]
    split
    · next g graph =>
      split
      · exact ih filed
      · next blocks => exact ih (filed_add filed graph (by simpa using blocks))
    · exact ih filed

/-- A call of an analyzed method is filed under the name that it calls. -/
theorem mem_callSites_ofProgram {excluded : List String} {caller : MethodId} {i : Nat} {line : CodeLine}
    {args : List Register} {ref : MethodRef}
    (analyzed : (ofProgram p excluded).index.isAnalyzed caller = true)
    (isLine : p.line? caller i = some line) (calls : line.operation = .invoke args ref) :
    .body caller i ∈ (ofProgram p excluded).index.callSites.lines ref.name := by
  have filed : ∃ base, Filed p base (ofProgram p excluded).index :=
    ⟨_, filed_foldl (candidates p excluded) ⟨rfl, rfl, by simp, by simp⟩⟩
  obtain ⟨base, filed⟩ := filed
  obtain ⟨s, found⟩ := Option.isSome_iff_exists.mp analyzed
  have inside : s ∈ (ofProgram p excluded).index.summaries := Array.mem_of_find?_eq_some found
  have named : s.method = caller := by simpa using Array.find?_some found
  obtain ⟨id, g, graph, blocks, rfl⟩ := filed.made s inside
  rw [Summary.method_ofGraph] at named
  subst named
  -- the graph is that of the method, so every line of the body is in one of its blocks
  have graph' : (ofProgram p excluded).index.graph? id = some g := by
    rw [← graph, graph?, graph?, filed.prepared]
  obtain ⟨m, isMethod, built⟩ := faithful_ofProgram p excluded id g graph'
  rw [program_ofProgram] at isMethod
  obtain rfl | ⟨flow, has⟩ := BlockGraph.blocks_eq_empty_or_hasFlow built
  · exact absurd rfl blocks
  · have bound : i < m.lines.size := by
      rw [Program.line?, isMethod] at isLine
      exact (Array.getElem?_eq_some_iff.mp isLine).1
    obtain ⟨b, block, isBlock, here, _⟩ := has.exists_block bound
    have listed := Summary.mem_invokes_ofGraph (Array.mem_of_getElem? isBlock) here isLine calls
    have filedUnder := filed.calls _ inside _ listed
    simpa [calleeName, isLine, calls, Operation.method?] using filedUnder

/-! ### Calls and the bodies they run -/

/-- The calls written against an owner are among the call sites. -/
theorem mem_callSitesOf {id : MethodId} {m : Method} {site : LineId} {ref : MethodRef}
    (isMethod : x.program.method? id = some m) (filed : site ∈ x.callSites.lines m.name)
    (calls : x.callee? site = some ref) (params : ref.paramText = m.paramText)
    (owner : ref.owner ∈ x.callSiteOwners id m) : site ∈ x.callSitesOf id := by
  rw [callSitesOf, isMethod, List.mem_eraseDups]
  refine List.mem_flatMap.mpr ⟨ref.owner, owner, List.mem_filter.mpr ⟨by simpa using filed, ?_⟩⟩
  simp [calls, refMatches, params]

theorem owner_mem_callSiteOwners (x : Index) (id : MethodId) (m : Method) : m.owner ∈ x.callSiteOwners id m := by
  unfold callSiteOwners
  split <;> simp

theorem inheriting_mem_callSiteOwners {id : MethodId} {m : Method} {sub : String}
    (free : m.isPrivate = false ∧ m.isConstructor = false) (below : sub ∈ x.program.subclasses m.owner)
    (undeclared : x.program.declared? sub m.name m.paramText = none)
    (resolves : x.program.resolveMethod? { m.ref with owner := sub } = some id) :
    sub ∈ x.callSiteOwners id m := by
  have inherits : sub ∈ (x.program.subclasses m.owner).filter fun sub =>
      if m.isAbstract then (x.program.declared? sub m.name m.paramText).isNone
      else x.program.resolveMethod? { m.ref with owner := sub } = some id := by
    refine List.mem_filter.mpr ⟨below, ?_⟩
    split
    · simp [undeclared]
    · simp [resolves]
  simp only [callSiteOwners, free.1, free.2, Bool.or_self, Bool.false_eq_true, if_false, List.cons_append]
  exact List.mem_cons_of_mem _ (List.mem_append_left _ inherits)

theorem declaring_mem_callSiteOwners {id : MethodId} {m : Method} {sup : String}
    (virtual : Program.Overridable m) (above : sup ∈ x.program.supertypes m.owner)
    (declared : (x.program.declared? sup m.name m.paramText).isSome) :
    sup ∈ x.callSiteOwners id m := by
  obtain ⟨notPrivate, notStatic, notConstructor⟩ := virtual
  simp only [callSiteOwners, notPrivate, notStatic, notConstructor, Bool.or_self, Bool.false_eq_true, if_false]
  exact List.mem_append_right _ (List.mem_filter.mpr ⟨above, declared⟩)

/-- A call is among the call sites of the bodies that it may run: of the method that it resolves to, if it is
written against the class of that or the method is neither private nor a constructor; and of another
implementation that can be overridden, if it is written against the class that declares the resolved method. -/
theorem call_mem_callSitesOf {p : Program} (wf : p.WellFormed) {excluded : List String}
    {caller callee target : MethodId} {i : Nat} {line : CodeLine} {args : List Register} {ref : MethodRef}
    {c m : Method} (analyzed : (ofProgram p excluded).index.isAnalyzed caller = true)
    (isLine : p.line? caller i = some line) (calls : line.operation = .invoke args ref)
    (resolves : (ofProgram p excluded).index.resolve? ref = some callee)
    (runs : target ∈ (ofProgram p excluded).index.implementations callee)
    (isCallee : p.method? callee = some c) (isTarget : p.method? target = some m)
    (resolved : target = callee → ref.owner = m.owner ∨ (m.isPrivate = false ∧ m.isConstructor = false))
    (overrides : target ≠ callee → ref.owner = c.owner ∧ Program.Overridable m) :
    .body caller i ∈ (ofProgram p excluded).index.callSitesOf target := by
  have resolves' : p.resolveMethod? ref = some callee := by
    simp only [resolve?, program_ofProgram, Option.bind_eq_bind, Option.bind_eq_some_iff] at resolves
    obtain ⟨id, found, _, _, guard⟩ := resolves
    split at guard
    · exact found.trans guard
    · simp at guard
  have runs' : target ∈ p.implementations callee := by
    simpa using (List.mem_filter.mp runs).1
  obtain ⟨_, _, owner, _, named, declares, _⟩ := wf.exists_chain_of_resolveMethod? resolves'
  cases named.symm.trans (wf.owner_eq isCallee)
  obtain ⟨c', isCallee', calleeName, calleeParams⟩ := Program.method?_of_declared? declares
  cases isCallee'.symm.trans isCallee
  have filed := mem_callSites_ofProgram analyzed isLine calls
  have isCall : (ofProgram p excluded).index.callee? (.body caller i) = some ref := by
    simp [callee?, isLine, calls, Operation.method?]
  by_cases same : target = callee
  · subst same
    cases isTarget.symm.trans isCallee
    refine mem_callSitesOf (by simpa using isCallee) (calleeName ▸ filed) isCall calleeParams.symm ?_
    by_cases here : ref.owner = c.owner
    · rw [here]
      exact owner_mem_callSiteOwners _ target c
    · obtain ⟨below, undeclared⟩ := wf.inherits_of_resolveMethod? resolves' named here
      refine inheriting_mem_callSiteOwners ((resolved rfl).resolve_left here) (by simpa using below) ?_ ?_
      · simpa [calleeName, calleeParams] using undeclared
      · rw [program_ofProgram, ← resolves']
        exact Program.resolveMethod?_congr rfl calleeName calleeParams
  · obtain ⟨written, virtual⟩ := overrides same
    obtain ⟨-, sub, below, declares'⟩ := ((Program.mem_implementations isCallee).mp runs').resolve_left same
    obtain ⟨m', isTarget', name, params⟩ := Program.method?_of_declared? declares'
    cases isTarget'.symm.trans isTarget
    cases (Program.nameAt_of_declared? declares').symm.trans (wf.owner_eq isTarget)
    rw [calleeName] at name
    rw [calleeParams] at params
    refine mem_callSitesOf (by simpa using isTarget) (name ▸ filed) isCall params.symm ?_
    refine declaring_mem_callSiteOwners virtual ?_ ?_
    · rw [program_ofProgram, written]
      exact wf.mem_supertypes_of_mem_subclasses (Program.mem_classNames.mpr ⟨_, named⟩) below
    · rw [program_ofProgram, written, name, params, declares]
      rfl

/-- A method of two lines that calls the method of its name in another class. -/
def callsAcross (owner other : String) (flags : List AccessFlag) : Method where
  owner := owner
  name := "f"
  params := []
  result := "V"
  flags := flags
  lines := #[
    ⟨1, "invoke-virtual", .invoke ["p0"] ⟨other, "f", [], "V"⟩, ""⟩,
    ⟨2, "return-void", .returnVoid, ""⟩]

/-- The graph of such a method: a single block. -/
def straightGraph : BlockGraph.Graph where
  blocks := #[
    { lines := [0, 1], label := some 0, preds := [], succs := [], returns := true, throws := false, jumps := false,
      dead := false, isTry := false, isHandler := false }]

theorem ofMethod_callsAcross (owner other : String) (flags : List AccessFlag) :
    BlockGraph.ofMethod (callsAcross owner other flags) = .ok straightGraph := by cbv

/-- A class with a private method that calls itself by way of a class below. -/
def callsBelow : Program where
  classes := #[
    { name := "LBase;", superName := "LObject;", path := "Base.smali",
      methods := #[callsAcross "LBase;" "LSub;" [.private]] },
    { name := "LSub;", superName := "LBase;", path := "Sub.smali" }]

/-- A class with an abstract method, and one below that overrides it and calls it. -/
def callsAbove : Program where
  classes := #[
    { name := "LBase;", superName := "LObject;", path := "Base.smali",
      methods := #[⟨"LBase;", "f", [], "V", [.abstract], 0, #[], none⟩] },
    { name := "LSub;", superName := "LBase;", path := "Sub.smali",
      methods := #[callsAcross "LSub;" "LBase;" [.public]] }]

theorem wellFormed_callsBelow : callsBelow.WellFormed where
  classes := by
    intro c inside
    simp only [callsBelow, List.mem_toArray, List.mem_cons, List.not_mem_nil, or_false] at inside
    rcases inside with rfl | rfl <;> exact ⟨by decide, by simp [callsAcross]⟩
  distinct := by decide

theorem wellFormed_callsAbove : callsAbove.WellFormed where
  classes := by
    intro c inside
    simp only [callsAbove, List.mem_toArray, List.mem_cons, List.not_mem_nil, or_false] at inside
    rcases inside with rfl | rfl <;> exact ⟨by decide, by simp [callsAcross]⟩
  distinct := by decide

/-- The index of a program in which such a method is all that is looked at. -/
def indexAcross (p : Program) (id : MethodId) : Index where
  program := p
  prepared := Std.HashMap.insert {} id (.built straightGraph)
  summaries := #[{ method := id, invokes := #[.body id 0] }]
  callSites := LineTable.file {} "f" (.body id 0)

theorem index_callsBelow : (ofProgram callsBelow []).index = indexAcross callsBelow ⟨0, 0⟩ := by
  have only : candidates callsBelow [] = [⟨0, 0⟩] := by decide
  have summary : Summary.ofGraph callsBelow ⟨0, 0⟩ straightGraph =
      { method := ⟨0, 0⟩, invokes := #[.body ⟨0, 0⟩ 0] } := rfl
  rw [index_ofProgram_of_candidates only rfl (by decide) (ofMethod_callsAcross ..) (by decide), summary]
  simp only [add, merge_empty]
  rfl

theorem index_callsAbove : (ofProgram callsAbove ["LBase;"]).index = indexAcross callsAbove ⟨1, 0⟩ := by
  have only : candidates callsAbove ["LBase;"] = [⟨1, 0⟩] := by decide
  have summary : Summary.ofGraph callsAbove ⟨1, 0⟩ straightGraph =
      { method := ⟨1, 0⟩, invokes := #[.body ⟨1, 0⟩ 0] } := rfl
  rw [index_ofProgram_of_candidates only rfl (by decide) (ofMethod_callsAcross ..) (by decide), summary]
  simp only [add, merge_empty]
  rfl

/-- A call of a private method by way of a class below its own resolves to the method and runs it, but is not
among the call sites. -/
theorem private_call_missed :
    callsBelow.WellFormed ∧ callsBelow.Acyclic ∧ (ofProgram callsBelow []).index.isAnalyzed ⟨0, 0⟩ = true ∧
      (ofProgram callsBelow []).index.callee? (.body ⟨0, 0⟩ 0) = some ⟨"LSub;", "f", [], "V"⟩ ∧
      (ofProgram callsBelow []).index.resolve? ⟨"LSub;", "f", [], "V"⟩ = some ⟨0, 0⟩ ∧
      ⟨0, 0⟩ ∈ (ofProgram callsBelow []).index.implementations ⟨0, 0⟩ ∧
      .body ⟨0, 0⟩ 0 ∉ (ofProgram callsBelow []).index.callSitesOf ⟨0, 0⟩ := by
  rw [index_callsBelow]
  have bodies : (indexAcross callsBelow ⟨0, 0⟩).implementations ⟨0, 0⟩ = [⟨0, 0⟩] := by cbv
  have none : (indexAcross callsBelow ⟨0, 0⟩).callSitesOf ⟨0, 0⟩ = [] := by cbv
  refine ⟨wellFormed_callsBelow, Program.acyclic_of_lt (by decide), by cbv, by cbv, by cbv, ?_, ?_⟩
  · simp [bodies]
  · simp [none]

/-- The call of an abstract method is among the call sites of what overrides it. -/
theorem abstract_call_found :
    (ofProgram callsAbove ["LBase;"]).index.resolve? ⟨"LBase;", "f", [], "V"⟩ = some ⟨0, 0⟩ ∧
      ⟨1, 0⟩ ∈ (ofProgram callsAbove ["LBase;"]).index.implementations ⟨0, 0⟩ ∧
      .body ⟨1, 0⟩ 0 ∈ (ofProgram callsAbove ["LBase;"]).index.callSitesOf ⟨1, 0⟩ := by
  have resolves : (ofProgram callsAbove ["LBase;"]).index.resolve? ⟨"LBase;", "f", [], "V"⟩ = some ⟨0, 0⟩ := by
    rw [index_callsAbove]
    cbv
  have runs : ⟨1, 0⟩ ∈ (ofProgram callsAbove ["LBase;"]).index.implementations ⟨0, 0⟩ := by
    have bodies : (indexAcross callsAbove ⟨1, 0⟩).implementations ⟨0, 0⟩ = [⟨1, 0⟩] := by cbv
    simp [index_callsAbove, bodies]
  have analyzed : (ofProgram callsAbove ["LBase;"]).index.isAnalyzed ⟨1, 0⟩ = true := by
    rw [index_callsAbove]
    cbv
  refine ⟨resolves, runs, ?_⟩
  exact call_mem_callSitesOf wellFormed_callsAbove analyzed rfl rfl resolves runs rfl rfl (by decide)
    fun _ => ⟨rfl, by decide⟩

end Index

end SmaliTrace
