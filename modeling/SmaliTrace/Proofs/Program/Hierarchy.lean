import Mathlib
import SmaliTrace.Program.Hierarchy
import SmaliTrace.Proofs.ClassFile.Reading
import SmaliTrace.Proofs.Graph.BreadthFirst

/-!
The class hierarchy of a well-formed program: the superclass chain, the types below and above a class, and
the methods that a call may run. A call on an object of a class below that of a method runs one of the
implementations of the method, unless the object has the method from outside the types below.
-/
namespace SmaliTrace
open SmaliTrace.ClassFile SmaliTrace.Smali

/-! ### Well-formed programs -/

/-- The class has a name, and its methods name it as their owner. -/
structure ClassFile.ClassDecl.WellFormed (c : ClassDecl) : Prop where
  named : c.name ≠ ""
  owned : ∀ m ∈ c.methods, m.owner = c.name

/-- What is read from a class file is well-formed. -/
theorem ClassFile.wellFormed_of_parse {path text : String} {c : ClassDecl} (parsed : parse path text = .ok c) :
    c.WellFormed := by
  obtain ⟨s, -, -, named, rfl⟩ := exists_run_of_parse parsed
  refine ⟨named, fun m inside => ?_⟩
  obtain ⟨m', _, rfl⟩ := Array.mem_map.mp inside
  rfl

namespace Program

variable {p : Program}

/-- Every class is well-formed, and no two classes have one name. -/
structure WellFormed (p : Program) : Prop where
  classes : ∀ c ∈ p.classes, c.WellFormed
  distinct : p.classNames.Nodup

theorem sublist_keepFirst (classes kept : List ClassDecl) :
    (keepFirst kept classes).1.Sublist (kept.reverse ++ classes) := by
  induction classes generalizing kept with
  | nil => simp [keepFirst]
  | cons c classes ih =>
    rw [keepFirst]
    split
    · simpa using ih (c :: kept)
    · exact (ih kept).trans ((List.sublist_cons_self c classes).append_left _)

theorem nodup_keepFirst (classes kept : List ClassDecl) (distinct : (kept.map ClassDecl.name).Nodup) :
    ((keepFirst kept classes).1.map ClassDecl.name).Nodup := by
  induction classes generalizing kept with
  | nil => simpa [keepFirst, List.map_reverse] using distinct
  | cons d classes ih =>
    rw [keepFirst]
    split
    · next fresh =>
      refine ih _ (List.nodup_cons.mpr ⟨?_, distinct⟩)
      simpa using fresh
    · exact ih kept distinct

theorem ofClasses_singleton (c : ClassDecl) : (ofClasses [c]).1 = ⟨#[c]⟩ := by simp [ofClasses, keepFirst]

theorem mem_of_mem_ofClasses {classes : List ClassDecl} {c : ClassDecl} (inside : c ∈ (ofClasses classes).1.classes) :
    c ∈ classes := by
  have kept : c ∈ (keepFirst [] (classes.mergeSort fun a b => decide (a.name ≤ b.name))).1 := by
    simpa [ofClasses] using inside
  have sorted := (sublist_keepFirst _ []).subset kept
  simpa using sorted

/-- A program of classes read from class files is well-formed. -/
theorem wellFormed_ofClasses {classes : List ClassDecl}
    (parsed : ∀ c ∈ classes, ∃ path text, ClassFile.parse path text = .ok c) :
    (ofClasses classes).1.WellFormed where
  classes c inside := by
    obtain ⟨path, text, isClass⟩ := parsed c (mem_of_mem_ofClasses inside)
    exact ClassFile.wellFormed_of_parse isClass
  distinct := nodup_keepFirst _ [] (by simp)

/-! ### Classes and the methods they declare -/

/-- The name of the class at a position. -/
def nameAt (p : Program) (i : Nat) : Option String := p.classes[i]?.map ClassDecl.name

theorem mem_classNames {name : String} : name ∈ p.classNames ↔ ∃ i, p.nameAt i = some name := by
  simp only [classNames, nameAt, List.mem_iff_getElem?, List.getElem?_map, Array.getElem?_toList]

namespace WellFormed

variable (wf : p.WellFormed) {i j : Nat} {name params : String}
include wf

theorem eq_of_nameAt (one : p.nameAt i = some name) (other : p.nameAt j = some name) : i = j := by
  have names : ∀ k, p.classNames[k]? = p.nameAt k := by simp [classNames, nameAt]
  rw [← names] at one other
  obtain ⟨bound, _⟩ := List.getElem?_eq_some_iff.mp one
  exact (List.getElem?_inj bound wf.distinct).mp (one.trans other.symm)

theorem name_ne_empty (found : p.nameAt i = some name) : name ≠ "" := by
  obtain ⟨c, isClass, rfl⟩ := Option.map_eq_some_iff.mp found
  exact (wf.classes c (Array.mem_of_getElem? isClass)).named

theorem owner_eq {id : MethodId} {m : Method} (isMethod : p.method? id = some m) :
    p.nameAt id.cls = some m.owner := by
  obtain ⟨c, isClass, declared⟩ := Option.bind_eq_some_iff.mp isMethod
  have owned := (wf.classes c (Array.mem_of_getElem? isClass)).owned m (Array.mem_of_getElem? declared)
  simp [nameAt, isClass, owned]

/-- A class is found by its name. -/
theorem classIndex?_eq (found : p.nameAt i = some name) : p.classIndex? name = some i := by
  have some : (p.classIndex? name).isSome := by
    obtain ⟨c, isClass, rfl⟩ := Option.map_eq_some_iff.mp found
    rw [classIndex?, Array.findIdx?_isSome, Array.any_eq_true']
    exact ⟨c, Array.mem_of_getElem? isClass, by simp⟩
  obtain ⟨j, first⟩ := Option.isSome_iff_exists.mp some
  obtain ⟨bound, named, _⟩ := Array.findIdx?_eq_some_iff_getElem.mp first
  have atJ : p.nameAt j = .some name := by simpa [nameAt, bound] using named
  rw [first, wf.eq_of_nameAt found atJ]

/-- The methods that a class declares are found in it. -/
theorem declared?_eq (found : p.nameAt i = some name) (k : String) :
    p.declared? name k params = (p.classes[i]?.bind fun c => c.methodIndex? k params).map (⟨i, ·⟩) := by
  obtain ⟨c, isClass, rfl⟩ := Option.map_eq_some_iff.mp found
  simp [declared?, wf.classIndex?_eq found, isClass, Option.map_eq_bind]

end WellFormed

/-! ### The superclass chain -/

/-- The first class names the second as its superclass. -/
def SuperStep (p : Program) (i j : Nat) : Prop :=
  ∃ c, p.classes[i]? = some c ∧ p.nameAt j = some c.superName

/-- The chain starts at the named class, goes from class to superclass, and comes to no class twice. -/
private theorem chainFrom_spec (p : Program) {unseen : List Nat} (distinct : unseen.Nodup) (name : String) :
    (∀ i ∈ p.chainFrom unseen name, i ∈ unseen) ∧ (p.chainFrom unseen name).Nodup ∧
      (p.chainFrom unseen name).IsChain p.SuperStep ∧
      ∀ i ∈ (p.chainFrom unseen name).head?, p.nameAt i = some name := by
  fun_induction chainFrom p unseen name with
  | case1 unseen name _ => simp
  | case2 unseen name i found _ _ ih =>
    obtain ⟨inside, distinct', steps, first⟩ := ih (distinct.erase i)
    have member := List.mem_of_find?_eq_some found
    have named : p.nameAt i = some name := by simpa [nameAt] using List.find?_some found
    obtain ⟨c, isClass, _⟩ := Option.map_eq_some_iff.mp named
    refine ⟨?_, ?_, ?_, by simpa using named⟩
    · intro j listed
      rcases List.mem_cons.mp listed with rfl | later
      · exact member
      · exact List.mem_of_mem_erase (inside j later)
    · exact List.nodup_cons.mpr ⟨fun again => distinct.not_mem_erase (inside i again), distinct'⟩
    · refine List.isChain_cons.mpr ⟨fun j next => ⟨c, isClass, ?_⟩, steps⟩
      simpa [isClass] using first j next

theorem nodup_chain (p : Program) (name : String) : (p.chain name).Nodup :=
  (chainFrom_spec p List.nodup_range name).2.1

theorem head?_chain {name : String} {i : Nat} (first : i ∈ (p.chain name).head?) : p.nameAt i = some name :=
  (chainFrom_spec p List.nodup_range name).2.2.2 i first

/-- Along the chain every class is below all later ones. -/
theorem pairwise_chain (p : Program) (name : String) :
    (p.chain name).Pairwise (Relation.TransGen p.SuperStep) :=
  ((chainFrom_spec p List.nodup_range name).2.2.1.imp fun _ _ => Relation.TransGen.single).pairwise

/-- No class is above itself. -/
def Acyclic (p : Program) : Prop := ∀ i, ¬ Relation.TransGen p.SuperStep i i

/-- Superclasses that all stand before their subclasses form no cycle. -/
theorem acyclic_of_lt (before : ∀ i < p.classes.size, ∀ j < p.classes.size,
    p.nameAt j = p.classes[i]?.map ClassDecl.superName → j < i) : p.Acyclic := by
  have step : ∀ {i j}, p.SuperStep i j → j < i := by
    rintro i j ⟨c, isClass, isSuper⟩
    obtain ⟨d, isClass', _⟩ := Option.map_eq_some_iff.mp isSuper
    obtain ⟨boundI, _⟩ := Array.getElem?_eq_some_iff.mp isClass
    obtain ⟨boundJ, _⟩ := Array.getElem?_eq_some_iff.mp isClass'
    exact before i boundI j boundJ (by rw [isSuper, isClass]; rfl)
  intro i cycle
  have later : ∀ {j}, Relation.TransGen p.SuperStep i j → j < i := by
    intro j path
    induction path with
    | single isSuper => exact step isSuper
    | tail _ isSuper ih => exact (step isSuper).trans ih
  exact lt_irrefl i (later cycle)

/-! ### Types below and above -/

theorem mem_directSubtypes {sub name : String} : sub ∈ p.directSubtypes name ↔
    ∃ c ∈ p.classes, c.name = sub ∧ ((c.superName ≠ "" ∧ c.superName = name) ∨ name ∈ c.interfaces) := by
  simp only [directSubtypes, List.mem_map, List.mem_filter, Array.mem_toList_iff, Bool.or_eq_true,
    Bool.and_eq_true, decide_eq_true_eq, List.contains_iff_mem]
  grind

namespace WellFormed

variable (wf : p.WellFormed) {sub name : String} {i j : Nat}
include wf

theorem mem_subclasses_iff : sub ∈ p.subclasses name ↔
    sub ≠ name ∧ Relation.TransGen (Graph.Enters p.directSubtypes p.classNames) name sub :=
  Graph.mem_breadthFirst_erase_iff wf.distinct

theorem mem_supertypes_iff : name ∈ p.supertypes sub ↔
    name ≠ sub ∧ Relation.TransGen (Graph.Enters p.directSupertypes p.classNames) sub name :=
  Graph.mem_breadthFirst_erase_iff wf.distinct

/-- A class is found by its name. -/
theorem class?_eq {c : ClassDecl} (inside : c ∈ p.classes) : p.class? c.name = some c := by
  have some : (p.class? c.name).isSome := by
    rw [class?, Array.find?_isSome]
    exact ⟨c, inside, by simp⟩
  obtain ⟨d, first⟩ := Option.isSome_iff_exists.mp some
  have same : d.name = c.name := by simpa using Array.find?_some first
  obtain ⟨i, isC⟩ := Array.mem_iff_getElem?.mp inside
  obtain ⟨j, isD⟩ := Array.mem_iff_getElem?.mp (Array.mem_of_find?_eq_some first)
  have atI : p.nameAt i = .some c.name := by simp [nameAt, isC]
  have atJ : p.nameAt j = .some c.name := by simp [nameAt, isD, same]
  have equal := wf.eq_of_nameAt atI atJ
  subst equal
  rw [first, ← isC, isD]

theorem mem_directSupertypes (below : sub ∈ p.directSubtypes name) : name ∈ p.directSupertypes sub := by
  obtain ⟨c, inside, rfl, above⟩ := mem_directSubtypes.mp below
  rw [directSupertypes, wf.class?_eq inside]
  grind

/-- What is below a class has the class above it. -/
theorem mem_supertypes_of_mem_subclasses (isClass : name ∈ p.classNames) (below : sub ∈ p.subclasses name) :
    name ∈ p.supertypes sub := by
  obtain ⟨other, path⟩ := wf.mem_subclasses_iff.mp below
  refine wf.mem_supertypes_iff.mpr ⟨other.symm, ?_⟩
  clear other below
  induction path with
  | single enters => exact .single ⟨wf.mem_directSupertypes enters.1, isClass⟩
  | tail before enters ih =>
    obtain ⟨_, _, _, member⟩ := Relation.TransGen.tail'_iff.mp before
    exact .head ⟨wf.mem_directSupertypes enters.1, member⟩ ih

/-- A class on the way to another along superclasses is below it. -/
theorem mem_subclasses_of_superStep (path : Relation.TransGen p.SuperStep i j) (isSub : p.nameAt i = some sub)
    (isName : p.nameAt j = some name) (other : sub ≠ name) : sub ∈ p.subclasses name := by
  refine wf.mem_subclasses_iff.mpr ⟨other, ?_⟩
  have step : ∀ {i j : Nat} {sub name : String}, p.SuperStep i j → p.nameAt i = some sub → p.nameAt j = some name →
      Graph.Enters p.directSubtypes p.classNames name sub := by
    rintro i j sub name ⟨c, isClass, isSuper⟩ isSub isName
    cases isName.symm.trans isSuper
    refine ⟨mem_directSubtypes.mpr ⟨c, Array.mem_of_getElem? isClass, ?_, .inl ⟨wf.name_ne_empty isName, rfl⟩⟩,
      mem_classNames.mpr ⟨i, isSub⟩⟩
    simpa [nameAt, isClass] using isSub
  clear other
  induction path generalizing name with
  | single isSuper => exact .single (step isSuper isSub isName)
  | @tail k _ before isSuper ih =>
    obtain ⟨c, isClass, _⟩ := id isSuper
    have isMiddle : p.nameAt k = some c.name := by simp [nameAt, isClass]
    exact .head (step isSuper isMiddle isName) (ih isMiddle)

end WellFormed

/-! ### Dispatch -/

/-- A method that a class declares is in the class. -/
theorem nameAt_of_declared? {owner name params : String} {id : MethodId}
    (declares : p.declared? owner name params = some id) : p.nameAt id.cls = some owner := by
  simp only [declared?, Option.bind_eq_bind, Option.bind_eq_some_iff, Option.some.injEq] at declares
  obtain ⟨i, found, _, _, k, _, rfl⟩ := declares
  obtain ⟨bound, named, _⟩ := Array.findIdx?_eq_some_iff_getElem.mp found
  simpa [nameAt, bound] using named

theorem method?_of_methodIndex? {name params : String} {i k : Nat} {c : ClassDecl} (isClass : p.classes[i]? = some c)
    (declares : c.methodIndex? name params = some k) :
    ∃ m, p.method? ⟨i, k⟩ = some m ∧ m.name = name ∧ m.paramText = params := by
  obtain ⟨bound, named, _⟩ := Array.findIdx?_eq_some_iff_getElem.mp declares
  refine ⟨c.methods[k], by simp [method?, isClass, bound], ?_⟩
  simpa [Method.isNamed] using named

/-- A method that a class declares has the name and parameters that it is declared with. -/
theorem method?_of_declared? {owner name params : String} {id : MethodId}
    (declares : p.declared? owner name params = some id) :
    ∃ m, p.method? id = some m ∧ m.name = name ∧ m.paramText = params := by
  simp only [declared?, Option.bind_eq_bind, Option.bind_eq_some_iff, Option.some.injEq] at declares
  obtain ⟨i, _, c, isClass, k, declares, rfl⟩ := declares
  exact method?_of_methodIndex? isClass declares

/-- A call that resolves finds a method with its name and parameters. -/
theorem method?_of_resolveMethod? {r : MethodRef} {id : MethodId} (resolves : p.resolveMethod? r = some id) :
    ∃ m, p.method? id = some m ∧ m.name = r.name ∧ m.paramText = r.paramText := by
  obtain ⟨c, -, atClass⟩ := List.exists_of_findSome?_eq_some resolves
  obtain ⟨k, inClass, rfl⟩ := Option.map_eq_some_iff.mp atClass
  obtain ⟨cls, isClass, declares⟩ := Option.bind_eq_some_iff.mp inClass
  exact method?_of_methodIndex? isClass declares

/-- A program of one method has no other. -/
theorem eq_of_method? {c : ClassDecl} {m m' : Method} {id : MethodId} (found : (⟨#[c]⟩ : Program).method? id = some m')
    (only : c.methods = #[m]) : m' = m := by
  obtain ⟨c', isClass, isMethod⟩ := Option.bind_eq_some_iff.mp found
  obtain rfl : c' = c := by simpa using Array.mem_of_getElem? isClass
  rw [only] at isMethod
  simpa using Array.mem_of_getElem? isMethod

/-- The result type of a reference does not matter. -/
theorem resolveMethod?_congr {r r' : MethodRef} (owner : r.owner = r'.owner) (name : r.name = r'.name)
    (params : r.paramText = r'.paramText) : p.resolveMethod? r = p.resolveMethod? r' := by
  rw [resolveMethod?, resolveMethod?, owner, name, params]

/-- The method is overridden by methods of the same name and parameters below its class. -/
def Overridable (m : Method) : Prop :=
  m.isPrivate = false ∧ m.isStatic = false ∧ m.isConstructor = false

instance (m : Method) : Decidable (Overridable m) := inferInstanceAs (Decidable (_ ∧ _ ∧ _))

theorem mem_implementations {id target : MethodId} {m : Method} (isMethod : p.method? id = some m) :
    target ∈ p.implementations id ↔ target = id ∨
      Overridable m ∧ ∃ sub ∈ p.subclasses m.owner, p.declared? sub m.name m.paramText = some target := by
  by_cases virtual : Overridable m
  · have free : (m.isPrivate || m.isStatic || m.isConstructor) = false := by
      simpa [Overridable, and_assoc] using virtual
    simp [implementations, isMethod, free, virtual]
  · have fixed : (m.isPrivate || m.isStatic || m.isConstructor) = true := by
      rw [← Bool.not_eq_false]
      simpa [Overridable, and_assoc] using virtual
    simp [implementations, isMethod, fixed, virtual]

namespace WellFormed

variable (wf : p.WellFormed) {r : MethodRef} {target : MethodId}
include wf

/-- The resolved method is declared by a class of the chain, and by no class before that. -/
theorem exists_chain_of_resolveMethod? (resolves : p.resolveMethod? r = some target) :
    ∃ before after owner, p.chain r.owner = before ++ target.cls :: after ∧
      p.nameAt target.cls = some owner ∧ p.declared? owner r.name r.paramText = some target ∧
      ∀ i ∈ before, ∀ name, p.nameAt i = some name → p.declared? name r.name r.paramText = none := by
  obtain ⟨before, i, after, split, here, none⟩ := List.findSome?_eq_some_iff.mp resolves
  obtain ⟨k, declares, rfl⟩ := Option.map_eq_some_iff.mp here
  obtain ⟨c, isClass, _⟩ := Option.bind_eq_some_iff.mp declares
  have named : p.nameAt i = some c.name := by simp [nameAt, isClass]
  refine ⟨before, after, c.name, split, named, ?_, fun j earlier name atJ => ?_⟩
  · rw [wf.declared?_eq named, here]
  · rw [wf.declared?_eq atJ, none j earlier]

/-- A reference to another class than the one that declares the resolved method names a class below that, which
does not declare the method itself. -/
theorem inherits_of_resolveMethod? {owner : String} (resolves : p.resolveMethod? r = some target)
    (isOwner : p.nameAt target.cls = some owner) (other : r.owner ≠ owner) :
    r.owner ∈ p.subclasses owner ∧ p.declared? r.owner r.name r.paramText = none := by
  obtain ⟨before, after, _, split, _, _, none⟩ := wf.exists_chain_of_resolveMethod? resolves
  cases before with
  | nil =>
    have named : p.nameAt target.cls = some r.owner := head?_chain (by simp [split])
    exact absurd (Option.some.inj (named.symm.trans isOwner)) other
  | cons i before =>
    have named : p.nameAt i = some r.owner := head?_chain (by simp [split])
    have order := pairwise_chain p r.owner
    rw [split, List.cons_append] at order
    have path : Relation.TransGen p.SuperStep i target.cls := (List.pairwise_cons.mp order).1 _ (by simp)
    exact ⟨wf.mem_subclasses_of_superStep path named isOwner other, none i (by simp) _ named⟩

/-- Where the superclass chain of a class leads to a method with the name and parameters of an overridable one,
it is an implementation of that exactly if it is the method itself or declared below its class. This is so
whenever the chain passes the class of the method, and the method is the one that its class declares with its
name and parameters. -/
theorem resolved_mem_implementations {id : MethodId} {m : Method} {d : String}
    (isMethod : p.method? id = some m) (virtual : Overridable m)
    (runs : p.resolveMethod? { m.ref with owner := d } = some target) :
    (target ∈ p.implementations id ↔
      target = id ∨ ∃ sub ∈ p.subclasses m.owner, p.nameAt target.cls = some sub) ∧
    (id.cls ∈ p.chain d → p.declared? m.owner m.name m.paramText = some id → target ∈ p.implementations id) := by
  obtain ⟨before, after, owner, split, named, declares, none⟩ := wf.exists_chain_of_resolveMethod? runs
  have runsBelow : target ∈ p.implementations id ↔
      target = id ∨ ∃ sub ∈ p.subclasses m.owner, p.nameAt target.cls = some sub := by
    rw [mem_implementations isMethod]
    refine or_congr_right ⟨?_, ?_⟩
    · rintro ⟨-, sub, below, declared⟩
      exact ⟨sub, below, nameAt_of_declared? declared⟩
    · rintro ⟨_, below, isSub⟩
      cases named.symm.trans isSub
      exact ⟨virtual, owner, below, declares⟩
  refine ⟨runsBelow, fun onChain own => runsBelow.mpr ?_⟩
  have isOwner : p.nameAt id.cls = some m.owner := wf.owner_eq isMethod
  simp only [split, List.mem_append, List.mem_cons] at onChain
  rcases onChain with earlier | same | later
  · have := none id.cls earlier m.owner isOwner
    exact absurd (own.symm.trans this) (by simp)
  · left
    rw [same] at isOwner
    cases named.symm.trans isOwner
    exact Option.some.inj (declares.symm.trans own)
  · right
    have order := pairwise_chain p d
    have distinct := nodup_chain p d
    simp only [split] at order distinct
    have path : Relation.TransGen p.SuperStep target.cls id.cls :=
      (List.pairwise_cons.mp (List.pairwise_append.mp order).2.1).1 _ later
    have other : target.cls ≠ id.cls := by
      rintro same
      exact (List.nodup_cons.mp (List.nodup_append.mp distinct).2.1).1 (same ▸ later)
    refine ⟨owner, wf.mem_subclasses_of_superStep path named isOwner ?_, named⟩
    rintro rfl
    exact other (wf.eq_of_nameAt named isOwner)

end WellFormed

/-- A class that has the method of its interface from its superclass, and below it one that overrides the
method. -/
def inheritsForInterface : Program where
  classes := #[
    { name := "LBase;", superName := "LObject;", path := "Base.smali",
      methods := #[⟨"LBase;", "f", [], "V", [.public], 0, #[], none⟩] },
    { name := "LDerived;", superName := "LBase;", interfaces := ["LIface;"], path := "Derived.smali" },
    { name := "LIface;", superName := "LObject;", path := "Iface.smali",
      methods := #[⟨"LIface;", "f", [], "V", [.public, .abstract], 0, #[], none⟩] },
    { name := "LLeaf;", superName := "LDerived;", path := "Leaf.smali",
      methods := #[⟨"LLeaf;", "f", [], "V", [.public], 0, #[], none⟩] }]

theorem wellFormed_inheritsForInterface : inheritsForInterface.WellFormed where
  classes := by
    intro c inside
    simp only [inheritsForInterface, List.mem_toArray, List.mem_cons, List.not_mem_nil, or_false] at inside
    rcases inside with rfl | rfl | rfl | rfl <;> exact ⟨by decide, by simp⟩
  distinct := by decide

theorem chain_inheritsForInterface : inheritsForInterface.chain "LLeaf;" = [3, 1, 0] := by cbv

theorem resolveMethod?_inheritsForInterface :
    inheritsForInterface.resolveMethod? ⟨"LLeaf;", "f", [], "V"⟩ = some ⟨3, 0⟩ ∧
      inheritsForInterface.resolveMethod? ⟨"LDerived;", "f", [], "V"⟩ = some ⟨0, 0⟩ := by
  have chain : inheritsForInterface.chain "LDerived;" = [1, 0] := by cbv
  rw [resolveMethod?, resolveMethod?, chain_inheritsForInterface, chain]
  constructor <;> cbv

/-- The interface does not count what the class inherits from its superclass among the implementations of its
method, though that is what a call on an object of the class runs. -/
theorem inherited_not_mem_implementations : ∃ m, inheritsForInterface.WellFormed ∧ inheritsForInterface.Acyclic ∧
    inheritsForInterface.method? ⟨2, 0⟩ = some m ∧ Overridable m ∧
    "LDerived;" ∈ inheritsForInterface.subclasses m.owner ∧
    inheritsForInterface.resolveMethod? { m.ref with owner := "LDerived;" } = some ⟨0, 0⟩ ∧
    ⟨0, 0⟩ ∉ inheritsForInterface.implementations ⟨2, 0⟩ := by
  have below : inheritsForInterface.subclasses "LIface;" = ["LDerived;", "LLeaf;"] := by cbv
  have bodies : inheritsForInterface.implementations ⟨2, 0⟩ = [⟨2, 0⟩, ⟨3, 0⟩] := by cbv
  refine ⟨⟨"LIface;", "f", [], "V", [.public, .abstract], 0, #[], none⟩, wellFormed_inheritsForInterface,
    acyclic_of_lt (by decide), rfl, by decide, ?_, resolveMethod?_inheritsForInterface.2, ?_⟩
  · simp [below]
  · simp [bodies]

/-- A call of the method of the uppermost class on an object of the lowest one runs the override there. -/
theorem override_mem_implementations : ∃ m, inheritsForInterface.method? ⟨0, 0⟩ = some m ∧ Overridable m ∧
    inheritsForInterface.resolveMethod? { m.ref with owner := "LLeaf;" } = some ⟨3, 0⟩ ∧
    ⟨3, 0⟩ ∈ inheritsForInterface.implementations ⟨0, 0⟩ := by
  have declares : inheritsForInterface.declared? "LBase;" "f" "" = some ⟨0, 0⟩ := by cbv
  have runs := resolveMethod?_inheritsForInterface.1
  have isMethod : inheritsForInterface.method? ⟨0, 0⟩ =
      some ⟨"LBase;", "f", [], "V", [.public], 0, #[], none⟩ := rfl
  refine ⟨_, isMethod, by decide, runs, ?_⟩
  have below := wellFormed_inheritsForInterface.resolved_mem_implementations isMethod (by decide) runs
  exact below.2 (by simp [chain_inheritsForInterface]) declares

end Program

end SmaliTrace
