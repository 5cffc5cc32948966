import SmaliTrace.Proofs.Index.Embedding
import SmaliTrace.Proofs.Index.Scan

/-!
Excluded classes and classes that are not there. Excluding classes leaves their methods without summaries, but
resolution, field lookup and the walks over the hierarchy still see them. Where nothing that is kept comes upon
them in one of these ways, the index of a program with excluded classes answers what the index of the program
without the classes answers.
-/
namespace SmaliTrace
open SmaliTrace.ClassFile SmaliTrace.Smali
open SmaliTrace.Text (Octets)

/-- The lines of all bodies. -/
def Program.codeLines (p : Program) : List CodeLine :=
  p.classes.toList.flatMap fun c => c.methods.toList.flatMap fun m => m.lines.toList

theorem Program.mem_codeLines {p : Program} {m : MethodId} {i : Nat} {line : CodeLine}
    (isLine : p.line? m i = some line) : line ∈ p.codeLines := by
  obtain ⟨method, isMethod, atIndex⟩ := Option.bind_eq_some_iff.mp isLine
  obtain ⟨c, isClass, declared⟩ := Option.bind_eq_some_iff.mp isMethod
  simp only [codeLines, List.mem_flatMap, Array.mem_toList_iff]
  exact ⟨c, Array.mem_of_getElem? isClass, method, Array.mem_of_getElem? declared, Array.mem_of_getElem? atIndex⟩

namespace Index

variable {p : Program} {excluded : List String}

/-! ### What the index holds of a method -/

theorem graph?_eq_some_iff {x : Index} {id : MethodId} {g : BlockGraph.Graph} :
    x.graph? id = some g ↔ x.prepared[id]? = some (.built g) := by
  unfold graph?
  split
  · next found => simp [found]
  · next other => simpa using fun found => other g found

theorem mem_candidates {id : MethodId} : id ∈ candidates p excluded ↔
    (p.method? id).isSome ∧ (p.classes[id.cls]?).any (fun c => !isExcluded excluded c) = true := by
  rw [candidates_eq_filter, List.mem_filter, mem_methods]

/-- The graph of every method that takes part is kept, if it can be built. -/
theorem graph?_ofProgram {id : MethodId} {g : BlockGraph.Graph} :
    (ofProgram p excluded).index.graph? id = some g ↔
      id ∈ candidates p excluded ∧ ∃ m, p.method? id = some m ∧ BlockGraph.ofMethod m = .ok g := by
  have prepared : (ofProgram p excluded).index.prepared =
      ((candidates p excluded).foldl (Preparation.visit p)
        { tally := ({} : Tally).add .classes (p.classes.toList.countP fun c => !isExcluded excluded c) }).prepared :=
    (foldl_add_frame ..).2
  rw [graph?_eq_some_iff, prepared]
  by_cases listed : id ∈ candidates p excluded
  · obtain ⟨m, isMethod⟩ := Option.isSome_iff_exists.mp (mem_candidates.mp listed).1
    simp only [listed, true_and]
    exact settled_foldl isMethod _ _ listed g
  · have untouched : ∀ (order : List MethodId) (s : Preparation), id ∉ order →
        (order.foldl (Preparation.visit p) s).prepared[id]? = s.prepared[id]? := by
      intro order
      induction order with
      | nil => exact fun _ _ => rfl
      | cons next order ih =>
        intro s absent
        rw [List.mem_cons, not_or] at absent
        rw [List.foldl_cons, ih _ absent.2, prepared_visit_of_ne (Ne.symm absent.1)]
    rw [untouched _ _ listed]
    simp [listed]

/-- Filing summaries adds one for each method with blocks. -/
private theorem methods_foldl_add (base : Index) (methods : List MethodId) (x : Index) :
    (methods.foldl (fun x id =>
      match base.graph? id with
      | some g => if g.blocks.isEmpty then x else x.add (Summary.ofGraph p id g)
      | none => x) x).summaries.toList.map Summary.method =
      x.summaries.toList.map Summary.method ++ methods.filter base.hasBody := by
  induction methods generalizing x with
  | nil => simp
  | cons id methods ih =>
    rw [List.foldl_cons, ih, List.filter_cons]
    cases graph : base.graph? id with
    | none => simp [hasBody, graph]
    | some g => cases blocks : g.blocks.isEmpty <;> simp [hasBody, graph, blocks, add]

theorem hasBody_iff {x : Index} {id : MethodId} :
    x.hasBody id = true ↔ ∃ g, x.graph? id = some g ∧ g.blocks.isEmpty = false := by
  unfold hasBody
  cases x.graph? id <;> simp

/-- The methods that have a summary are those that take part, in whatever order they were prepared. -/
theorem isAnalyzed_finishedIn {order : List MethodId} (finished : order.Perm (candidates p excluded))
    {id : MethodId} : (finishedIn p excluded order).isAnalyzed id = true ↔ id ∈ analyzedMethods p excluded := by
  have listed : ∀ x : Index, x.isAnalyzed id = true ↔ id ∈ x.summaries.toList.map Summary.method := by
    intro x
    simp [isAnalyzed, summary?, Array.find?_isSome]
  rw [listed, show (finishedIn p excluded order).summaries.toList.map Summary.method = _ from methods_foldl_add ..,
    analyzedMethods_eq_filter]
  refine List.mem_filter.trans (Iff.trans (and_congr_right fun inside => ?_) List.mem_filter.symm)
  have settled := settled_of_mem_candidates finished inside
    (({} : Tally).add .classes (p.classes.toList.countP fun c => !isExcluded excluded c))
  rw [hasBody_iff]
  constructor
  · rintro ⟨g, graph, blocks⟩
    obtain ⟨m, found, built⟩ := (settled.graph?_eq_some_iff rfl).mp graph
    simpa [found] using analyzable_iff.mpr ⟨g, built, blocks⟩
  · intro takes
    obtain ⟨m, found, takes⟩ := (Option.any_eq_true _ _).mp takes
    obtain ⟨g, built, blocks⟩ := analyzable_iff.mp takes
    exact ⟨g, (settled.graph?_eq_some_iff rfl).mpr ⟨m, found, built⟩, blocks⟩

theorem isAnalyzed_ofProgram {id : MethodId} :
    (ofProgram p excluded).index.isAnalyzed id = true ↔ id ∈ analyzedMethods p excluded := by
  rw [index_ofProgram]
  exact isAnalyzed_finishedIn (.refl _)

/-! ### The program without the excluded classes -/

/-- The class name starts with none of the excluded texts. -/
def keeps (excluded : List String) (name : String) : Bool :=
  !excluded.any fun e => Text.startsWith e name.toList

theorem any_included (i : Nat) :
    (p.classes[i]?).any (fun c => !isExcluded excluded c) = p.keptAt (keeps excluded) i := by
  rw [Program.keptAt, Program.nameAt, Option.any_map]
  rfl

theorem any_included_nil {q : Program} {id : MethodId} (isMethod : (q.method? id).isSome) :
    (q.classes[id.cls]?).any (fun c => !isExcluded [] c) = true := by
  cases isClass : q.classes[id.cls]? with
  | none => simp [Program.method?, isClass] at isMethod
  | some c => rfl

/-- The program that is left without the excluded classes. -/
abbrev kept (p : Program) (excluded : List String) : Program := p.restrict (keeps excluded)

/-- The position of a class of the remaining program in the whole one. -/
abbrev place (p : Program) (excluded : List String) : Nat → Nat := p.position (keeps excluded)

theorem candidates_kept :
    candidates p excluded = (candidates (kept p excluded) []).map (MethodId.rename (place p excluded)) := by
  have all : candidates (kept p excluded) [] = (kept p excluded).methods := by
    rw [candidates_eq_filter]
    exact List.filter_eq_self.mpr fun id inside => any_included_nil (mem_methods.mp inside)
  rw [all, candidates_eq_filter, ← Program.filter_methods]
  exact List.filter_congr fun id _ => any_included id.cls

theorem analyzedMethods_kept :
    analyzedMethods p excluded =
      (analyzedMethods (kept p excluded) []).map (MethodId.rename (place p excluded)) := by
  have split : ∀ (q : Program) (excluded : List String), analyzedMethods q excluded =
      (candidates q excluded).filter fun id => (q.method? id).any analyzable := by
    intro q excluded
    rw [candidates_eq_filter, List.filter_filter, analyzedMethods]
    exact List.filter_congr fun id _ => Bool.and_comm _ _
  rw [split, split, candidates_kept, List.filter_map]
  congr 2
  funext id
  rw [Function.comp_apply, Program.method?_position]

theorem analyzedLines_kept :
    analyzedLines p excluded = (analyzedLines (kept p excluded) []).map (LineId.rename (place p excluded)) := by
  have ofMethod : ∀ id, bodyLines p (id.rename (place p excluded)) =
      (bodyLines (kept p excluded) id).map (LineId.rename (place p excluded)) := by
    intro id
    unfold bodyLines
    rw [Program.method?_position]
    cases (kept p excluded).method? id <;> simp [LineId.rename]
  unfold analyzedLines
  rw [analyzedMethods_kept, List.flatMap_map, List.map_flatMap]
  simp only [ofMethod]

theorem operation?_kept (l : LineId) :
    p.operation? (l.rename (place p excluded)) = (kept p excluded).operation? l := by
  cases l with
  | body m i => simp only [Program.operation?, LineId.rename, Program.line?_position]
  | declaration c i => rfl

/-- Tests that agree on the lines that are kept pick the same lines. -/
theorem scan_kept {test test' : Operation → Bool}
    (same : ∀ {m i line}, (kept p excluded).line? m i = some line → test line.operation = test' line.operation) :
    scan p excluded test = (scan (kept p excluded) [] test').map (LineId.rename (place p excluded)) := by
  unfold scan
  rw [analyzedLines_kept, List.filter_map]
  congr 1
  refine List.filter_congr fun l _ => ?_
  rw [Function.comp_apply, operation?_kept]
  cases l with
  | declaration c i => rfl
  | body m i =>
    cases isLine : (kept p excluded).line? m i with
    | none => simp [Program.operation?, isLine]
    | some line => simp [Program.operation?, isLine, same isLine]

/-- No kept line comes upon an excluded class: nothing that is excluded is below a kept class, no call ends at a
native or abstract method of an excluded class, no field access at a field of one, and no call is written against
an excluded class whose method a kept one overrides. -/
structure Secluded (p : Program) (excluded : List String) : Prop where
  detached : p.Detached (keeps excluded)
  calls : ∀ line ∈ (kept p excluded).codeLines, ∀ ref, line.operation.method? = some ref → ∀ id m,
    p.resolveMethod? ref = some id → p.method? id = some m → p.keptAt (keeps excluded) id.cls = false →
      m.isNative = false ∧ m.isAbstract = false
  fields : ∀ line ∈ (kept p excluded).codeLines, ∀ ref, line.operation.field? = some ref →
    ∀ target ∈ [(ref.owner, ref.name), p.fieldTarget ref], ∀ c i,
      p.resolveField? target.1 target.2 = some (c, i) → p.keptAt (keeps excluded) c = true
  overrides : ∀ id m, (kept p excluded).method? id = some m → Program.Overridable m →
    ∀ sup ∈ p.supertypes m.owner, keeps excluded sup = false → (p.declared? sup m.name m.paramText).isSome →
    ∀ line ∈ (kept p excluded).codeLines, ∀ ref, line.operation.method? = some ref → ref.name = m.name →
      refMatches sup m.paramText ref = false

/-! ### Answers about methods -/

theorem isAnalyzed_kept (id : MethodId) :
    (ofProgram p excluded).index.isAnalyzed (id.rename (place p excluded)) =
      (ofProgram (kept p excluded) []).index.isAnalyzed id := by
  rw [Bool.eq_iff_iff, isAnalyzed_ofProgram, isAnalyzed_ofProgram, analyzedMethods_kept,
    List.mem_map_of_injective (MethodId.rename_injective Program.position_injective)]

/-- No excluded method takes part. -/
theorem not_isAnalyzed_of_not_keptAt {id : MethodId} (dropped : p.keptAt (keeps excluded) id.cls = false) :
    (ofProgram p excluded).index.isAnalyzed id = false := by
  rw [Bool.eq_false_iff, ne_eq, isAnalyzed_ofProgram, analyzedMethods, List.mem_filter, any_included, dropped]
  simp

theorem graph?_kept (id : MethodId) :
    (ofProgram p excluded).index.graph? (id.rename (place p excluded)) =
      (ofProgram (kept p excluded) []).index.graph? id := by
  refine Option.ext fun g => ?_
  rw [graph?_ofProgram, graph?_ofProgram, candidates_kept,
    List.mem_map_of_injective (MethodId.rename_injective Program.position_injective), Program.method?_position]

theorem returns_kept (id : MethodId) :
    (ofProgram p excluded).index.returns (id.rename (place p excluded)) =
      ((ofProgram (kept p excluded) []).index.returns id).map (LineId.rename (place p excluded)) := by
  rw [index_ofProgram, index_ofProgram, returns_finishedIn (.refl _), returns_finishedIn (.refl _),
    scan_kept fun _ => rfl, List.filter_map]
  congr 1
  refine List.filter_congr fun l _ => ?_
  rw [Function.comp_apply, LineId.method?_rename]
  cases l.method? <;> simp [(MethodId.rename_injective Program.position_injective).eq_iff]

/-- An excluded method returns nothing that is known. -/
theorem returns_of_not_isAnalyzed {x : Index} {id : MethodId} (absent : x.isAnalyzed id = false) :
    x.returns id = [] := by
  unfold returns
  cases found : x.summary? id with
  | none => rfl
  | some s => simp [isAnalyzed, found] at absent

private theorem flatMap_filter_of_nil {α β : Type} {test : α → Bool} {g : α → List β} {l : List α}
    (silent : ∀ a ∈ l, test a = false → g a = []) : (l.filter test).flatMap g = l.flatMap g := by
  induction l with
  | nil => rfl
  | cons a l ih =>
    have rest := ih fun b inside => silent b (List.mem_cons_of_mem _ inside)
    cases passes : test a with
    | true => simp [passes, rest]
    | false => simp [passes, rest, silent a List.mem_cons_self passes]

theorem returnsOf_kept (owner name params : String) :
    (p.findMethods owner name params).flatMap (ofProgram p excluded).index.returns =
      (((kept p excluded).findMethods owner name params).flatMap
        (ofProgram (kept p excluded) []).index.returns).map (LineId.rename (place p excluded)) := by
  have found : ((p.findMethods owner name params).filter fun id => p.keptAt (keeps excluded) id.cls) =
      ((kept p excluded).findMethods owner name params).map (MethodId.rename (place p excluded)) := by
    unfold Program.findMethods
    rw [List.filter_filter]
    simp only [Bool.and_comm (p.keptAt _ _)]
    rw [← List.filter_filter, Program.filter_methods, List.filter_map]
    congr 1
    refine List.filter_congr fun id _ => ?_
    simp only [Function.comp_apply, Program.method?_position]
    rw [show (id.rename (place p excluded)).cls = place p excluded id.cls from rfl, Program.getElem?_position]
  have silent : ∀ id ∈ p.findMethods owner name params, p.keptAt (keeps excluded) id.cls = false →
      (ofProgram p excluded).index.returns id = [] := fun _ _ dropped =>
    returns_of_not_isAnalyzed (not_isAnalyzed_of_not_keptAt dropped)
  rw [← flatMap_filter_of_nil silent, found, List.flatMap_map, List.map_flatMap]
  simp only [returns_kept]

section Secluded

variable (wf : p.WellFormed) (secluded : Secluded p excluded)

include wf secluded in
theorem implementations_kept (id : MethodId) :
    (ofProgram p excluded).index.implementations (id.rename (place p excluded)) =
      ((ofProgram (kept p excluded) []).index.implementations id).map (MethodId.rename (place p excluded)) := by
  unfold implementations
  rw [program_ofProgram, program_ofProgram, Program.implementations_restrict secluded.detached wf, List.filter_map]
  exact congrArg _ (List.filter_congr fun body _ => isAnalyzed_kept body)

include secluded

theorem resolve?_kept {line : CodeLine} (inside : line ∈ (kept p excluded).codeLines) {ref : MethodRef}
    (calls : line.operation.method? = some ref) :
    (ofProgram p excluded).index.resolve? ref =
      ((ofProgram (kept p excluded) []).index.resolve? ref).map (MethodId.rename (place p excluded)) := by
  unfold resolve?
  rw [program_ofProgram, program_ofProgram]
  rcases Program.resolveMethod?_restrict secluded.detached ref with ⟨id, isTarget, isTarget'⟩ | ⟨nothing, outside⟩
  · rw [isTarget, isTarget']
    simp only [Option.bind_eq_bind, Option.bind_some, Program.method?_position, isAnalyzed_kept]
    cases (kept p excluded).method? id with
    | none => rfl
    | some m =>
      simp only [Option.bind_some]
      split <;> rfl
  · rw [nothing]
    cases isTarget : p.resolveMethod? ref with
    | none => rfl
    | some id =>
      have dropped := outside id isTarget
      simp only [Option.bind_eq_bind, Option.bind_some, Option.bind_none, Option.map_none,
        not_isAnalyzed_of_not_keptAt dropped]
      cases isMethod : p.method? id with
      | none => rfl
      | some m =>
        obtain ⟨body, concrete⟩ := secluded.calls line inside ref calls id m isTarget isMethod dropped
        simp [body, concrete]

theorem resolveField?_kept {owner name : String} (inside : ∀ c i, p.resolveField? owner name = some (c, i) →
      p.keptAt (keeps excluded) c = true) :
    p.resolveField? owner name =
      ((kept p excluded).resolveField? owner name).map (Prod.map (place p excluded) id) := by
  rcases Program.resolveField?_restrict secluded.detached owner name with
    ⟨c, i, isTarget, isTarget'⟩ | ⟨nothing, outside⟩
  · rw [isTarget, isTarget']
    rfl
  · rw [nothing]
    cases isTarget : p.resolveField? owner name with
    | none => rfl
    | some target =>
      have dropped := outside target.1 target.2 isTarget
      rw [inside target.1 target.2 isTarget] at dropped
      cases dropped

theorem fieldKey_kept {line : CodeLine} (inside : line ∈ (kept p excluded).codeLines) {ref : FieldRef}
    (accesses : line.operation.field? = some ref) : p.fieldKey ref = (kept p excluded).fieldKey ref := by
  unfold Program.fieldKey
  rw [resolveField?_kept secluded (secluded.fields line inside ref accesses (ref.owner, ref.name) (by simp)),
    Option.bind_map]
  congr 2
  funext target
  exact Program.field?_position ..

theorem isWriteOf_kept {line : CodeLine} (inside : line ∈ (kept p excluded).codeLines) (key : String) :
    isWriteOf p key line.operation = isWriteOf (kept p excluded) key line.operation := by
  unfold isWriteOf
  cases accesses : line.operation.field? with
  | none => rfl
  | some ref => simp only [Option.any_some, fieldKey_kept secluded inside accesses]

theorem isReadOf_kept {line : CodeLine} (inside : line ∈ (kept p excluded).codeLines) (key : String) :
    isReadOf p key line.operation = isReadOf (kept p excluded) key line.operation := by
  unfold isReadOf
  cases accesses : line.operation.field? with
  | none => rfl
  | some ref => simp only [Option.any_some, fieldKey_kept secluded inside accesses]

end Secluded

theorem callSitesMatching_kept (owner name params : String) :
    (ofProgram p excluded).index.callSitesMatching owner name params =
      ((ofProgram (kept p excluded) []).index.callSitesMatching owner name params).map
        (LineId.rename (place p excluded)) := by
  rw [index_ofProgram, index_ofProgram, callSitesMatching_finishedIn (.refl _),
    callSitesMatching_finishedIn (.refl _), scan_kept fun _ => rfl]

/-! ### Callers -/

private theorem eraseDups_map {α β : Type} [BEq α] [LawfulBEq α] [BEq β] [LawfulBEq β] {g : α → β}
    (injective : g.Injective) (l : List α) : (l.map g).eraseDups = l.eraseDups.map g := by
  rcases l with _ | ⟨a, rest⟩
  · simp
  · have shorter := List.length_filter_le (fun b => !b == a) rest
    have ih := eraseDups_map injective (rest.filter fun b => !b == a)
    have others : (rest.map g).filter (fun b => !b == g a) = (rest.filter fun b => !b == a).map g := by
      rw [List.filter_map]
      congr 1
      refine List.filter_congr fun b _ => ?_
      rw [Function.comp_apply, Bool.not_inj_iff, Bool.eq_iff_iff, beq_iff_eq, beq_iff_eq, injective.eq_iff]
    rw [List.map_cons, List.eraseDups_cons, List.eraseDups_cons, others, ih, List.map_cons]
termination_by l.length
decreasing_by
  simp only [List.length_cons]
  omega

section Callers

variable (wf : p.WellFormed) (secluded : Secluded p excluded) {id : MethodId} {m : Method}
  (isMethod : (kept p excluded).method? id = some m)

include secluded isMethod in
/-- A reference resolves to a method of a kept class in both programs or in neither. -/
theorem resolveMethod?_eq_iff (ref : MethodRef) :
    p.resolveMethod? ref = some (id.rename (place p excluded)) ↔
      (kept p excluded).resolveMethod? ref = some id := by
  rcases Program.resolveMethod?_restrict secluded.detached ref with ⟨found, isTarget, isTarget'⟩ | ⟨nothing, outside⟩
  · rw [isTarget, isTarget', Option.some.injEq, Option.some.injEq,
      (MethodId.rename_injective Program.position_injective).eq_iff]
  · rw [nothing]
    refine iff_of_false (fun isTarget => ?_) (by simp)
    have bound : id.cls < (kept p excluded).classes.size := by
      by_contra beyond
      simp [Program.method?, Array.getElem?_eq_none (Nat.le_of_not_lt beyond)] at isMethod
    have isKept := Program.keptAt_position bound
    rw [show p.position (keeps excluded) id.cls = (id.rename (place p excluded)).cls from rfl,
      outside _ isTarget] at isKept
    cases isKept

include secluded isMethod in
/-- No call is written against an excluded class for a method that a kept class overrides. -/
theorem callSitesMatching_of_excluded (overridable : Program.Overridable m) {sup : String}
    (above : sup ∈ p.supertypes m.owner) (dropped : keeps excluded sup = false)
    (declares : (p.declared? sup m.name m.paramText).isSome) :
    (ofProgram p excluded).index.callSitesMatching sup m.name m.paramText = [] := by
  rw [callSitesMatching_kept, index_ofProgram, callSitesMatching_finishedIn (.refl _), scan, List.map_eq_nil_iff,
    List.filter_eq_nil_iff]
  intro l _ called
  obtain ⟨op, does, isCall⟩ := (Option.any_eq_true _ _).mp called
  cases l with
  | declaration c i => simp [Program.operation?] at does
  | body n i =>
    obtain ⟨line, isLine, rfl⟩ := Option.map_eq_some_iff.mp does
    simp only [isCallOf, Bool.and_eq_true] at isCall
    obtain ⟨ref, calls, matchesRef⟩ := (Option.any_eq_true _ _).mp isCall.2
    simp only [Bool.and_eq_true, decide_eq_true_eq] at matchesRef
    have apart := secluded.overrides id m isMethod overridable sup above dropped declares line
      (Program.mem_codeLines isLine) ref calls matchesRef.1
    rw [matchesRef.2] at apart
    cases apart

include wf secluded isMethod in
/-- The classes below a kept one are kept, and inherit its method in the one program as in the other. -/
theorem inheriting_kept (isKept : keeps excluded m.owner = true) (isClass : m.owner ∈ p.classNames) :
    ((p.subclasses m.owner).filter fun sub =>
      if m.isAbstract then (p.declared? sub m.name m.paramText).isNone
      else p.resolveMethod? { m.ref with owner := sub } = some (id.rename (place p excluded))) =
    (((kept p excluded).subclasses m.owner).filter fun sub =>
      if m.isAbstract then ((kept p excluded).declared? sub m.name m.paramText).isNone
      else (kept p excluded).resolveMethod? { m.ref with owner := sub } = some id) := by
  rw [Program.subclasses_restrict secluded.detached isKept isClass]
  refine List.filter_congr fun sub below => ?_
  have keptSub := Program.keep_of_mem_subclasses secluded.detached isKept isClass below
  rw [Program.declared?_restrict keptSub wf, Option.isNone_map, Bool.eq_iff_iff]
  split
  · rfl
  · rw [decide_eq_true_eq, decide_eq_true_eq]
    exact resolveMethod?_eq_iff secluded isMethod _

include wf secluded isMethod in
/-- Of the classes above a kept one that declare its method, the excluded ones add no calls. -/
theorem callsAbove_kept (overridable : Program.Overridable m) (isKept : keeps excluded m.owner = true) :
    ((p.supertypes m.owner).filter fun sup => (p.declared? sup m.name m.paramText).isSome).flatMap (fun owner =>
      (ofProgram p excluded).index.callSitesMatching owner m.name m.paramText) =
    (((kept p excluded).supertypes m.owner).filter fun sup =>
      ((kept p excluded).declared? sup m.name m.paramText).isSome).flatMap fun owner =>
        (ofProgram p excluded).index.callSitesMatching owner m.name m.paramText := by
  have silent : ∀ sup ∈ (p.supertypes m.owner).filter (fun sup => (p.declared? sup m.name m.paramText).isSome),
      keeps excluded sup = false →
        (ofProgram p excluded).index.callSitesMatching sup m.name m.paramText = [] := by
    intro sup inside dropped
    obtain ⟨above, declares⟩ := List.mem_filter.mp inside
    exact callSitesMatching_of_excluded secluded isMethod overridable above dropped declares
  rw [← flatMap_filter_of_nil silent, Program.supertypes_restrict secluded.detached isKept, List.filter_filter,
    List.filter_filter]
  congr 1
  refine List.filter_congr fun sup _ => ?_
  cases keptSup : keeps excluded sup with
  | true =>
    have same := congrArg Option.isSome (Program.declared?_restrict keptSup wf m.name m.paramText)
    rw [Option.isSome_map] at same
    rw [same, Bool.true_and, Bool.and_true]
  | false => rw [Bool.false_and, Bool.and_false]

include wf secluded isMethod in
/-- The calls that may reach a method are asked about at the same classes, those apart that the method is above by
an override and that no kept call is written against. -/
theorem calls_of_callSiteOwners :
    ((ofProgram p excluded).index.callSiteOwners (id.rename (place p excluded)) m).flatMap (fun owner =>
      (ofProgram p excluded).index.callSitesMatching owner m.name m.paramText) =
    (((ofProgram (kept p excluded) []).index.callSiteOwners id m).flatMap fun owner =>
      (ofProgram (kept p excluded) []).index.callSitesMatching owner m.name m.paramText).map
        (LineId.rename (place p excluded)) := by
  have named := wf.restrict.owner_eq isMethod
  have isKept := Program.keep_of_nameAt named
  have isClass : m.owner ∈ p.classNames :=
    Program.mem_classNames.mpr ⟨_, Program.nameAt_position id.cls ▸ named⟩
  rw [List.map_flatMap]
  simp only [← callSitesMatching_kept]
  unfold callSiteOwners
  rw [program_ofProgram, program_ofProgram]
  split
  · rfl
  · next shared =>
    simp only [List.flatMap_cons, List.flatMap_append]
    congr 1
    · rw [inheriting_kept wf secluded isMethod isKept isClass]
    · split
      · rfl
      · next isStatic =>
        have overridable : Program.Overridable m := by
          simp only [Bool.or_eq_true, not_or, Bool.not_eq_true] at shared
          exact ⟨shared.1, by simpa using isStatic, shared.2⟩
        exact callsAbove_kept wf secluded isMethod overridable isKept

end Callers

theorem callSitesOf_kept (wf : p.WellFormed) (secluded : Secluded p excluded) (id : MethodId) :
    (ofProgram p excluded).index.callSitesOf (id.rename (place p excluded)) =
      ((ofProgram (kept p excluded) []).index.callSitesOf id).map (LineId.rename (place p excluded)) := by
  unfold callSitesOf
  rw [program_ofProgram, program_ofProgram, Program.method?_position]
  cases isMethod : (kept p excluded).method? id with
  | none => rfl
  | some m =>
    dsimp only
    rw [calls_of_callSiteOwners wf secluded isMethod,
      eraseDups_map (LineId.rename_injective Program.position_injective)]

/-! ### The whole index -/

/-- Excluding classes that nothing comes upon gives the index of the program without them. -/
theorem embeds_kept (wf : p.WellFormed) (secluded : Secluded p excluded) :
    (ofProgram (kept p excluded) []).index.Embeds (place p excluded) (ofProgram p excluded).index where
  injective := Program.position_injective
  classes i := by
    rw [program_ofProgram, program_ofProgram]
    exact Program.getElem?_position i
  owned isMethod := by
    rw [program_ofProgram] at isMethod ⊢
    exact Program.mem_classNames.mpr ⟨_, wf.restrict.owner_eq isMethod⟩
  declared? isClass name params := by
    rw [program_ofProgram] at isClass
    rw [program_ofProgram, program_ofProgram]
    obtain ⟨i, named⟩ := Program.mem_classNames.mp isClass
    exact Program.declared?_restrict (Program.keep_of_nameAt named) wf name params
  fieldKey holds accesses := by
    rw [program_ofProgram] at holds
    rw [program_ofProgram, program_ofProgram]
    exact fieldKey_kept secluded (Program.mem_codeLines holds) accesses
  resolveField? {s ref} holds accesses := by
    rw [program_ofProgram] at holds
    rw [program_ofProgram, program_ofProgram]
    have inside := Program.mem_codeLines holds
    have target : p.fieldTarget ref = (kept p excluded).fieldTarget ref := by
      unfold Program.fieldTarget
      rw [fieldKey_kept secluded inside accesses]
    rw [← target]
    exact resolveField?_kept secluded (secluded.fields s.line inside ref accesses _ (by simp))
  graph? := graph?_kept
  resolve? holds calls := by
    rw [program_ofProgram] at holds
    exact resolve?_kept secluded (Program.mem_codeLines holds) calls
  implementations := implementations_kept wf secluded
  returns := returns_kept
  returnsOf owner name params := by
    rw [program_ofProgram, program_ofProgram]
    exact returnsOf_kept owner name params
  callSitesOf := callSitesOf_kept wf secluded
  callSitesMatching := callSitesMatching_kept
  fieldWrites key := by
    rw [index_ofProgram, index_ofProgram, fieldWrites_finishedIn (.refl _), fieldWrites_finishedIn (.refl _)]
    exact scan_kept fun isLine => isWriteOf_kept secluded (Program.mem_codeLines isLine) key
  fieldReads key := by
    rw [index_ofProgram, index_ofProgram, fieldReads_finishedIn (.refl _), fieldReads_finishedIn (.refl _)]
    exact scan_kept fun isLine => isReadOf_kept secluded (Program.mem_codeLines isLine) key
  literalSites value := by
    rw [index_ofProgram, index_ofProgram, literalSites_finishedIn (.refl _), literalSites_finishedIn (.refl _)]
    exact scan_kept fun _ => rfl
  allocationSites type := by
    rw [index_ofProgram, index_ofProgram, allocationSites_finishedIn (.refl _),
      allocationSites_finishedIn (.refl _)]
    exact scan_kept fun _ => rfl

end Index

end SmaliTrace
