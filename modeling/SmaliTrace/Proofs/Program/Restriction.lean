import SmaliTrace.Proofs.Program.Hierarchy

/-!
A program without some of its classes, chosen by their names. Its classes keep their order and take the positions
of a smaller program. As long as no class that is left out names one that is kept, chains, lookups and the walks
over the hierarchy find in the smaller program what they find in the whole one among the kept classes.
-/
namespace SmaliTrace
open SmaliTrace.ClassFile SmaliTrace.Smali

/-! ### Renamed positions -/

def MethodId.rename (f : Nat → Nat) (id : MethodId) : MethodId := ⟨f id.cls, id.index⟩

def LineId.rename (f : Nat → Nat) : LineId → LineId
  | .body m i => .body (m.rename f) i
  | .declaration c i => .declaration (f c) i

def BlockId.rename (f : Nat → Nat) (b : BlockId) : BlockId := ⟨b.method.rename f, b.index⟩

section
variable {f : Nat → Nat} (injective : f.Injective)
include injective

theorem MethodId.rename_injective : (MethodId.rename f).Injective := by
  rintro ⟨c, i⟩ ⟨d, j⟩ same
  simp only [rename, MethodId.mk.injEq] at same
  rw [injective same.1, same.2]

theorem LineId.rename_injective : (LineId.rename f).Injective := by
  intro k l same
  cases k <;> cases l <;> simp only [rename, LineId.body.injEq, LineId.declaration.injEq, reduceCtorEq] at same
  · rw [MethodId.rename_injective injective same.1, same.2]
  · rw [injective same.1, same.2]

theorem BlockId.rename_injective : (BlockId.rename f).Injective := by
  rintro ⟨m, i⟩ ⟨n, j⟩ same
  simp only [rename, BlockId.mk.injEq] at same
  rw [MethodId.rename_injective injective same.1, same.2]

end

@[simp] theorem LineId.method?_rename (f : Nat → Nat) (l : LineId) :
    (l.rename f).method? = l.method?.map (MethodId.rename f) := by
  cases l <;> rfl

namespace Program

/-- The program of the classes with a name to keep. -/
def restrict (p : Program) (keep : String → Bool) : Program := ⟨p.classes.filter fun c => keep c.name⟩

/-- The class at the position is kept. -/
def keptAt (p : Program) (keep : String → Bool) (i : Nat) : Bool := (p.nameAt i).any keep

/-- The positions of the kept classes. -/
def positions (p : Program) (keep : String → Bool) : List Nat :=
  (List.range p.classes.size).filter (p.keptAt keep)

/-- The position that a class of the smaller program has in the whole one. What is no position there is none
here. -/
def position (p : Program) (keep : String → Bool) (i : Nat) : Nat :=
  (p.positions keep)[i]?.getD (p.classes.size + i)

variable {p : Program} {keep : String → Bool}

private theorem map_getElem?_filter_range {α : Type} (test : α → Bool) (l : List α) :
    ((List.range l.length).filter fun i => l[i]?.any test).map (l[·]?) = (l.filter test).map some := by
  induction l with
  | nil => rfl
  | cons a l ih =>
    rw [List.length_cons, List.range_succ_eq_map, List.filter_cons, List.filter_map]
    have shifted : (fun i => ((a :: l)[i]?).any test) ∘ Nat.succ = fun i => l[i]?.any test := by
      funext i
      simp
    rw [shifted]
    have later : (((List.range l.length).filter fun i => l[i]?.any test).map Nat.succ).map ((a :: l)[·]?) =
        (l.filter test).map some := by
      rw [← ih, List.map_map]
      exact List.map_congr_left fun i _ => by simp
    by_cases kept : test a = true
    · rw [List.filter_cons_of_pos kept]
      simp only [List.getElem?_cons_zero, Option.any_some, kept, if_true, List.map_cons]
      rw [later]
    · rw [List.filter_cons_of_neg kept]
      simp only [List.getElem?_cons_zero, Option.any_some, kept, Bool.false_eq_true, if_false]
      exact later

theorem map_positions : (p.positions keep).map (p.classes[·]?) = (p.restrict keep).classes.toList.map some := by
  have at_ : p.keptAt keep = fun i => p.classes.toList[i]?.any fun c => keep c.name := by
    funext i
    rw [keptAt, nameAt, Option.any_map, Array.getElem?_toList]
  have := map_getElem?_filter_range (fun c : ClassDecl => keep c.name) p.classes.toList
  simpa [positions, restrict, at_] using this

theorem length_positions : (p.positions keep).length = (p.restrict keep).classes.size := by
  simpa using congrArg List.length (@map_positions p keep)

/-- The classes of the smaller program are those at their positions in the whole one. -/
theorem getElem?_position (i : Nat) : p.classes[p.position keep i]? = (p.restrict keep).classes[i]? := by
  have same := congrArg (·[i]?) (@map_positions p keep)
  simp only [List.getElem?_map, Array.getElem?_toList] at same
  unfold position
  cases found : (p.positions keep)[i]? with
  | some j =>
    rw [found] at same
    cases isClass : (p.restrict keep).classes[i]? with
    | none => simp [isClass] at same
    | some c => simpa [isClass] using same
  | none =>
    have outside : (p.restrict keep).classes.size ≤ i := by
      rw [← length_positions]
      exact List.getElem?_eq_none_iff.mp found
    rw [Option.getD_none, Array.getElem?_eq_none (by omega), Array.getElem?_eq_none outside]

theorem positions_eq :
    p.positions keep = (List.range (p.restrict keep).classes.size).map (p.position keep) := by
  refine List.ext_getElem? fun i => ?_
  rw [List.getElem?_map, ← length_positions]
  by_cases bound : i < (p.positions keep).length
  · simp [position, bound]
  · simp [bound]

theorem position_injective : (p.position keep).Injective := by
  intro i j same
  have distinct : (p.positions keep).Nodup := List.nodup_range.filter _
  have below : ∀ {i k : Nat}, (p.positions keep)[i]? = some k → k < p.classes.size := by
    intro i k found
    exact List.mem_range.mp (List.mem_filter.mp (List.mem_of_getElem? found)).1
  unfold position at same
  cases foundI : (p.positions keep)[i]? with
  | none =>
    cases foundJ : (p.positions keep)[j]? with
    | none =>
      rw [foundI, foundJ] at same
      simpa using same
    | some l =>
      have := below foundJ
      rw [foundI, foundJ] at same
      simp only [Option.getD_none, Option.getD_some] at same
      omega
  | some k =>
    cases foundJ : (p.positions keep)[j]? with
    | none =>
      have := below foundI
      rw [foundI, foundJ] at same
      simp only [Option.getD_none, Option.getD_some] at same
      omega
    | some l =>
      rw [foundI, foundJ] at same
      obtain ⟨bound, _⟩ := List.getElem?_eq_some_iff.mp foundI
      refine (List.getElem?_inj bound distinct).mp ?_
      rw [foundI, foundJ]
      exact congrArg some same

/-! ### Lookups -/

theorem method?_position (id : MethodId) :
    p.method? (id.rename (p.position keep)) = (p.restrict keep).method? id := by
  unfold method? MethodId.rename
  rw [getElem?_position]

theorem line?_position (m : MethodId) (i : Nat) :
    p.line? (m.rename (p.position keep)) i = (p.restrict keep).line? m i := by
  unfold line?
  rw [method?_position]

/-- The methods of the kept classes, in program order. -/
theorem filter_methods : (p.methods.filter fun id => p.keptAt keep id.cls) =
    (p.restrict keep).methods.map (MethodId.rename (p.position keep)) := by
  have ofClass : ∀ c, (p.methodsOf c).filter (fun id => p.keptAt keep id.cls) =
      if p.keptAt keep c then p.methodsOf c else [] := by
    intro c
    unfold methodsOf
    cases p.classes[c]? with
    | none => simp
    | some cls =>
      dsimp only
      rw [List.filter_map, show (fun id : MethodId => p.keptAt keep id.cls) ∘ (⟨c, ·⟩) = fun _ => p.keptAt keep c
        from rfl]
      cases p.keptAt keep c <;> simp
  have onlyKept : ∀ cs : List Nat, (cs.flatMap fun c => if p.keptAt keep c then p.methodsOf c else []) =
      (cs.filter (p.keptAt keep)).flatMap p.methodsOf := by
    intro cs
    induction cs with
    | nil => rfl
    | cons c cs ih =>
      rw [List.flatMap_cons, ih, List.filter_cons]
      split <;> simp
  have atPosition : ∀ i, p.methodsOf (p.position keep i) =
      ((p.restrict keep).methodsOf i).map (MethodId.rename (p.position keep)) := by
    intro i
    unfold methodsOf
    rw [getElem?_position]
    cases (p.restrict keep).classes[i]? <;> simp [MethodId.rename]
  unfold methods
  simp only [List.filter_flatMap, ofClass]
  rw [onlyKept, show (List.range p.classes.size).filter (p.keptAt keep) = p.positions keep from rfl, positions_eq,
    List.flatMap_map, List.map_flatMap]
  simp only [atPosition]

theorem field?_position (c i : Nat) : p.field? (p.position keep c) i = (p.restrict keep).field? c i := by
  unfold field?
  rw [getElem?_position]

theorem label_position (l : LineId) : p.label (l.rename (p.position keep)) = (p.restrict keep).label l := by
  cases l with
  | body m i => simp only [label, LineId.rename, method?_position]
  | declaration c i => simp only [label, LineId.rename, getElem?_position]

theorem nameAt_position (i : Nat) : p.nameAt (p.position keep i) = (p.restrict keep).nameAt i := by
  unfold nameAt
  rw [getElem?_position]

theorem mem_restrict {c : ClassDecl} :
    c ∈ (p.restrict keep).classes ↔ c ∈ p.classes ∧ keep c.name = true := by
  simp [restrict]

theorem keep_of_nameAt {i : Nat} {name : String} (named : (p.restrict keep).nameAt i = some name) :
    keep name = true := by
  obtain ⟨c, isClass, rfl⟩ := Option.map_eq_some_iff.mp named
  exact (mem_restrict.mp (Array.mem_of_getElem? isClass)).2

theorem keptAt_position {i : Nat} (bound : i < (p.restrict keep).classes.size) :
    p.keptAt keep (p.position keep i) = true := by
  have named : (p.restrict keep).nameAt i = some (p.restrict keep).classes[i].name := by simp [nameAt, bound]
  rw [keptAt, nameAt_position, named]
  exact keep_of_nameAt named

theorem classNames_restrict : (p.restrict keep).classNames = p.classNames.filter keep := by
  simp [classNames, restrict, List.filter_map, Function.comp_def]

theorem WellFormed.restrict (wf : p.WellFormed) : (p.restrict keep).WellFormed where
  classes c inside := wf.classes c (mem_restrict.mp inside).1
  distinct := by
    rw [classNames_restrict]
    exact wf.distinct.filter _

section Name
variable {name : String} (kept : keep name = true)
include kept

theorem class?_restrict : (p.restrict keep).class? name = p.class? name := by
  unfold class? Program.restrict
  simp only [← Array.find?_toList, Array.toList_filter, List.find?_filter]
  congr 1
  funext c
  by_cases same : c.name = name
  · simp [same, kept]
  · simp [same]

theorem mem_classNames_restrict : name ∈ (p.restrict keep).classNames ↔ name ∈ p.classNames := by
  simp [classNames_restrict, kept]

theorem declared?_restrict (wf : p.WellFormed) (method params : String) :
    p.declared? name method params =
      ((p.restrict keep).declared? name method params).map (MethodId.rename (p.position keep)) := by
  by_cases isClass : name ∈ (p.restrict keep).classNames
  · obtain ⟨i, named⟩ := mem_classNames.mp isClass
    rw [wf.restrict.declared?_eq named, wf.declared?_eq (nameAt_position i ▸ named), getElem?_position,
      Option.map_map]
    rfl
  · have absent : ∀ {q : Program}, name ∉ q.classNames → q.declared? name method params = none := by
      intro q absent
      cases found : q.declared? name method params with
      | none => rfl
      | some id => exact absurd (mem_classNames.mpr ⟨_, nameAt_of_declared? found⟩) absent
    rw [absent isClass, absent (mt (mem_classNames_restrict kept).mpr isClass)]
    rfl

theorem directSupertypes_restrict : (p.restrict keep).directSupertypes name = p.directSupertypes name := by
  rw [directSupertypes, directSupertypes, class?_restrict kept]

end Name

/-! ### The hierarchy -/

/-- No class that is left out names one that is kept. -/
def Detached (p : Program) (keep : String → Bool) : Prop :=
  ∀ c ∈ p.classes, keep c.name = false → ∀ d ∈ p.classes, keep d.name = true →
    c.superName ≠ d.name ∧ d.name ∉ c.interfaces

instance (p : Program) (keep : String → Bool) : Decidable (p.Detached keep) :=
  inferInstanceAs (Decidable (∀ c ∈ p.classes, keep c.name = false → ∀ d ∈ p.classes, keep d.name = true →
    c.superName ≠ d.name ∧ d.name ∉ c.interfaces))

/-- From a name that no kept class has, the chain leads through classes that are left out. -/
theorem dropped_of_mem_chainFrom (detached : p.Detached keep) {unseen : List Nat} {name : String}
    (absent : ∀ d ∈ p.classes, keep d.name = true → d.name ≠ name) :
    ∀ i ∈ p.chainFrom unseen name, p.keptAt keep i = false := by
  fun_induction chainFrom p unseen name with
  | case1 unseen name _ => simp
  | case2 unseen name i found _ _ ih =>
    have named : p.nameAt i = some name := by simpa [nameAt] using List.find?_some found
    obtain ⟨c, isClass, isName⟩ := Option.map_eq_some_iff.mp named
    have member : c ∈ p.classes := Array.mem_of_getElem? isClass
    have dropped : keep c.name = false := by
      by_contra kept
      exact absent c member (by simpa using kept) isName
    have above : ∀ d ∈ p.classes, keep d.name = true →
        d.name ≠ (p.classes[i]?.map ClassDecl.superName).getD "" := by
      intro d isKept kept same
      rw [isClass] at same
      exact (detached c member dropped d isKept kept).1 same.symm
    intro j listed
    rcases List.mem_cons.mp listed with rfl | later
    · simp [keptAt, named, ← isName, dropped]
    · exact ih above j later

theorem find?_restrict {unseen whole : List Nat} {name : String} (kept : keep name = true)
    (same : unseen.map (p.position keep) = whole.filter (p.keptAt keep)) :
    (whole.find? fun i => (p.classes[i]?.map ClassDecl.name) = some name) =
      (unseen.find? fun i => ((p.restrict keep).classes[i]?.map ClassDecl.name) = some name).map
        (p.position keep) := by
  have filtered : (whole.find? fun i => (p.classes[i]?.map ClassDecl.name) = some name) =
      (whole.filter (p.keptAt keep)).find? fun i => (p.classes[i]?.map ClassDecl.name) = some name := by
    rw [List.find?_filter]
    congr 1
    funext i
    by_cases named : p.classes[i]?.map ClassDecl.name = some name
    · simp [keptAt, nameAt, named, kept]
    · simp [named]
  rw [filtered, ← same, List.find?_map]
  congr 2
  funext i
  rw [Function.comp_apply, getElem?_position]

/-- The chain goes through kept classes first, as it does in the smaller program, and then leaves them for good. -/
theorem chainFrom_restrict (detached : p.Detached keep) {unseen whole : List Nat} {name : String}
    (same : unseen.map (p.position keep) = whole.filter (p.keptAt keep)) :
    ∃ rest, p.chainFrom whole name =
        ((p.restrict keep).chainFrom unseen name).map (p.position keep) ++ rest ∧
      ∀ i ∈ rest, p.keptAt keep i = false := by
  fun_induction chainFrom (p.restrict keep) unseen name generalizing whole with
  | case1 unseen name notFound =>
    refine ⟨p.chainFrom whole name, rfl, ?_⟩
    by_cases kept : keep name = true
    · have notFound' := find?_restrict kept same
      rw [notFound] at notFound'
      unfold chainFrom
      split
      · simp
      · next found =>
        rw [notFound'] at found
        cases found
    · refine dropped_of_mem_chainFrom detached fun d _ isKept isName => ?_
      rw [isName] at isKept
      exact kept isKept
  | case2 unseen name i found _ _ ih =>
    have named : (p.restrict keep).nameAt i = some name := by simpa [nameAt] using List.find?_some found
    have found' := find?_restrict (keep_of_nameAt named) same
    rw [found] at found'
    have same' : (unseen.erase i).map (p.position keep) =
        (whole.erase (p.position keep i)).filter (p.keptAt keep) := by
      rw [List.map_erase position_injective, same, List.erase_filter]
    obtain ⟨rest, chains, dropped⟩ := ih same'
    refine ⟨rest, ?_, dropped⟩
    rw [chainFrom]
    split
    · next notFound =>
      rw [found'] at notFound
      cases notFound
    · next j foundJ =>
      rw [found'] at foundJ
      cases foundJ
      rw [getElem?_position, chains]
      rfl

theorem chain_restrict (detached : p.Detached keep) (name : String) :
    ∃ rest, p.chain name = ((p.restrict keep).chain name).map (p.position keep) ++ rest ∧
      ∀ i ∈ rest, p.keptAt keep i = false := by
  exact chainFrom_restrict detached positions_eq.symm

/-- A method that a reference resolves to in the smaller program is the one it resolves to in the whole one. What
resolves in the whole one alone is declared by a class that is left out. -/
theorem resolveMethod?_restrict (detached : p.Detached keep) (r : MethodRef) :
    (∃ id, (p.restrict keep).resolveMethod? r = some id ∧
      p.resolveMethod? r = some (id.rename (p.position keep))) ∨
    (p.restrict keep).resolveMethod? r = none ∧
      ∀ id, p.resolveMethod? r = some id → p.keptAt keep id.cls = false := by
  obtain ⟨rest, chain, dropped⟩ := chain_restrict detached r.owner
  have resolves : p.resolveMethod? r =
      (((p.restrict keep).resolveMethod? r).map (MethodId.rename (p.position keep))).or
        (rest.findSome? fun c =>
          (p.classes[c]?.bind fun cls => cls.methodIndex? r.name r.paramText).map (⟨c, ·⟩)) := by
    rw [resolveMethod?, chain, List.findSome?_append, List.findSome?_map, resolveMethod?, List.map_findSome?]
    congr 2
    funext c
    simp only [Function.comp_apply, getElem?_position, Option.map_map]
    rfl
  cases found : (p.restrict keep).resolveMethod? r with
  | some id => exact .inl ⟨id, rfl, by rw [resolves, found]; rfl⟩
  | none =>
    refine .inr ⟨rfl, fun id isTarget => ?_⟩
    rw [resolves, found] at isTarget
    obtain ⟨c, listed, made⟩ := List.exists_of_findSome?_eq_some isTarget
    obtain ⟨k, _, rfl⟩ := Option.map_eq_some_iff.mp made
    exact dropped c listed

theorem resolveField?_restrict (detached : p.Detached keep) (owner name : String) :
    (∃ c i, (p.restrict keep).resolveField? owner name = some (c, i) ∧
      p.resolveField? owner name = some (p.position keep c, i)) ∨
    (p.restrict keep).resolveField? owner name = none ∧
      ∀ c i, p.resolveField? owner name = some (c, i) → p.keptAt keep c = false := by
  obtain ⟨rest, chain, dropped⟩ := chain_restrict detached owner
  have resolves : p.resolveField? owner name =
      (((p.restrict keep).resolveField? owner name).map (Prod.map (p.position keep) id)).or
        (rest.findSome? fun c => (p.classes[c]?.bind fun cls => cls.fieldIndex? name).map (c, ·)) := by
    rw [resolveField?, chain, List.findSome?_append, List.findSome?_map, resolveField?, List.map_findSome?]
    congr 2
    funext c
    simp only [Function.comp_apply, getElem?_position, Option.map_map]
    rfl
  cases found : (p.restrict keep).resolveField? owner name with
  | some target => exact .inl ⟨target.1, target.2, rfl, by rw [resolves, found]; rfl⟩
  | none =>
    refine .inr ⟨rfl, fun c i isTarget => ?_⟩
    rw [resolves, found] at isTarget
    obtain ⟨d, listed, made⟩ := List.exists_of_findSome?_eq_some isTarget
    obtain ⟨k, _, same⟩ := Option.map_eq_some_iff.mp made
    cases same
    exact dropped c listed

section Types
variable (detached : p.Detached keep) {name : String} (kept : keep name = true)
include detached kept

theorem keep_of_mem_directSubtypes (isClass : name ∈ p.classNames) {sub : String}
    (below : sub ∈ p.directSubtypes name) : sub ∈ p.classNames ∧ keep sub = true := by
  obtain ⟨c, inside, rfl, names⟩ := mem_directSubtypes.mp below
  obtain ⟨d, isKept, rfl⟩ := List.mem_map.mp isClass
  refine ⟨List.mem_map_of_mem (Array.mem_toList_iff.mpr inside), ?_⟩
  by_contra dropped
  obtain ⟨notSuper, notInterface⟩ :=
    detached c inside (by simpa using dropped) d (Array.mem_toList_iff.mp isKept) kept
  rcases names with ⟨_, isSuper⟩ | isInterface
  · exact notSuper isSuper
  · exact notInterface isInterface

theorem directSubtypes_restrict (isClass : name ∈ p.classNames) :
    (p.restrict keep).directSubtypes name = p.directSubtypes name := by
  unfold directSubtypes restrict
  rw [Array.toList_filter, List.filter_filter]
  congr 1
  refine List.filter_congr fun c inside => ?_
  cases names : (decide (c.superName ≠ "") && decide (c.superName = name) || c.interfaces.contains name) with
  | false => rfl
  | true =>
    have below : c.name ∈ p.directSubtypes name :=
      List.mem_map_of_mem (List.mem_filter.mpr ⟨inside, names⟩)
    simp [(keep_of_mem_directSubtypes detached kept isClass below).2]

theorem keep_of_mem_subclasses (isClass : name ∈ p.classNames) {sub : String} (below : sub ∈ p.subclasses name) :
    keep sub = true := by
  have closed : ∀ a, (a ∈ p.classNames ∧ keep a = true) → ∀ b ∈ p.directSubtypes a,
      b ∈ p.classNames ∧ keep b = true :=
    fun a met b below => keep_of_mem_directSubtypes detached met.2 met.1 below
  exact (Graph.met_of_mem_breadthFirst closed (by simp [isClass, kept]) below).2

theorem subclasses_restrict (isClass : name ∈ p.classNames) :
    (p.restrict keep).subclasses name = p.subclasses name := by
  have closed : ∀ a, (a ∈ p.classNames ∧ keep a = true) → ∀ b ∈ p.directSubtypes a,
      b ∈ p.classNames ∧ keep b = true :=
    fun a met b below => keep_of_mem_directSubtypes detached met.2 met.1 below
  have start : ∀ a ∈ [name], a ∈ p.classNames ∧ keep a = true := by simp [isClass, kept]
  have all : (p.subclasses name).filter keep = p.subclasses name :=
    List.filter_eq_self.mpr fun sub below => keep_of_mem_subclasses detached kept isClass below
  rw [← all, subclasses, subclasses, Graph.filter_breadthFirst closed
    (fun a met _ => directSubtypes_restrict detached met.2 met.1)
    (fun a met dropped => absurd met.2 (by simp [dropped])) start (List.Subset.refl _)]
  simp [classNames_restrict, List.erase_filter, kept]

theorem supertypes_restrict : (p.restrict keep).supertypes name = (p.supertypes name).filter keep := by
  have apart : ∀ a, True → keep a = false → ∀ b ∈ p.directSupertypes a, b ∈ p.classNames → keep b = false := by
    intro a _ dropped b above isClass
    by_contra isKept
    obtain ⟨d, member, rfl⟩ := List.mem_map.mp isClass
    unfold directSupertypes at above
    split at above
    · next c found =>
      have inside := Array.mem_of_find?_eq_some found
      have named : c.name = a := by simpa using Array.find?_some found
      obtain ⟨notSuper, notInterface⟩ :=
        detached c inside (named ▸ dropped) d (Array.mem_toList_iff.mp member) (by simpa using isKept)
      rcases List.mem_append.mp above with isSuper | isInterface
      · split at isSuper
        · simp at isSuper
        · exact notSuper (List.mem_singleton.mp isSuper).symm
      · exact notInterface isInterface
    · simp at above
  rw [supertypes, supertypes, Graph.filter_breadthFirst (fun _ _ _ _ => trivial)
    (fun a _ isKept => directSupertypes_restrict isKept) apart (fun _ _ => trivial) List.erase_subset]
  simp [classNames_restrict, List.erase_filter, kept]

end Types

/-- The implementations of a method of the smaller program are the same in the whole one. -/
theorem implementations_restrict (detached : p.Detached keep) (wf : p.WellFormed) (id : MethodId) :
    p.implementations (id.rename (p.position keep)) =
      ((p.restrict keep).implementations id).map (MethodId.rename (p.position keep)) := by
  unfold implementations
  rw [method?_position]
  cases isMethod : (p.restrict keep).method? id with
  | none => rfl
  | some m =>
    dsimp only
    split
    · rfl
    · have named := wf.restrict.owner_eq isMethod
      have kept := keep_of_nameAt named
      have isClass : m.owner ∈ p.classNames := mem_classNames.mpr ⟨_, nameAt_position id.cls ▸ named⟩
      rw [List.map_cons, subclasses_restrict detached kept isClass, List.map_filterMap]
      congr 1
      exact List.filterMap_congr fun sub below =>
        declared?_restrict (keep_of_mem_subclasses detached kept isClass below) wf ..

end Program

end SmaliTrace
