import SmaliTrace.Proofs.Program.Hierarchy
import SmaliTrace.Proofs.Text.Octets

/-!
The program of a list of classes. The classes are sorted by their names, and of equal names the first is kept; the sort
leaves classes of one name in their order. So in which order the names come does not matter, neither to the program
nor to what it answers.
-/
namespace SmaliTrace.Program
open SmaliTrace.ClassFile SmaliTrace.Smali

variable {classes others kept : List ClassDecl} {name : String}

/-! ### Sorting by name -/

/-- The classes of a name. -/
def named (name : String) (classes : List ClassDecl) : List ClassDecl := classes.filter fun c => c.name = name

theorem mem_named {c : ClassDecl} : c ∈ named name classes ↔ c ∈ classes ∧ c.name = name := by simp [named]

theorem head?_named (name : String) (classes : List ClassDecl) :
    (named name classes).head? = classes.find? fun c => c.name = name :=
  List.head?_filter

/-- The names do not decrease. -/
def Sorted (classes : List ClassDecl) : Prop := classes.Pairwise fun a b => a.name ≤ b.name

/-- The classes in the order of their names. -/
def sortByName (classes : List ClassDecl) : List ClassDecl :=
  classes.mergeSort fun a b => decide (a.name ≤ b.name)

private theorem byName_trans (a b c : ClassDecl) (first : decide (a.name ≤ b.name) = true)
    (second : decide (b.name ≤ c.name) = true) : decide (a.name ≤ c.name) = true := by
  rw [decide_eq_true_eq] at first second ⊢
  exact String.le_trans first second

private theorem byName_total (a b : ClassDecl) : (decide (a.name ≤ b.name) || decide (b.name ≤ a.name)) = true := by
  simpa using String.le_total a.name b.name

theorem sorted_sortByName (classes : List ClassDecl) : Sorted (sortByName classes) := by
  refine (List.pairwise_mergeSort byName_trans byName_total classes).imp ?_
  intro a b le
  simpa using le

/-- Sorting leaves the classes of a name in their order. -/
theorem named_sortByName (name : String) (classes : List ClassDecl) :
    named name (sortByName classes) = named name classes := by
  have level : (named name classes).Pairwise fun a b => decide (a.name ≤ b.name) = true := by
    refine List.pairwise_of_forall_mem_list fun a isA b isB => ?_
    rw [(mem_named.mp isA).2, (mem_named.mp isB).2, decide_eq_true_eq]
  have stable : (named name classes).Sublist (sortByName classes) :=
    List.sublist_mergeSort byName_trans byName_total level List.filter_sublist
  have within : (named name classes).Sublist (named name (sortByName classes)) := by
    simpa [named, List.filter_filter] using stable.filter fun c => c.name = name
  have length : (named name classes).length = (named name (sortByName classes)).length :=
    ((List.mergeSort_perm classes _).filter _).length_eq.symm
  exact (within.eq_of_length length).symm

/-- In lists with the same classes of each name, classes of a name that is the first in both come first. -/
private theorem head_name_le {a b : ClassDecl} (sorted : Sorted (a :: classes))
    (same : ∀ name, named name (a :: classes) = named name (b :: others)) : a.name ≤ b.name := by
  have inside : b ∈ named b.name (a :: classes) := by
    rw [same]
    exact mem_named.mpr ⟨List.mem_cons_self, rfl⟩
  rcases List.mem_cons.mp (mem_named.mp inside).1 with rfl | later
  · exact String.le_refl _
  · exact (List.pairwise_cons.mp sorted).1 b later

/-- A sorted list is told by its classes of each name. -/
theorem Sorted.eq (sorted : Sorted classes) (sorted' : Sorted others)
    (same : ∀ name, named name classes = named name others) : classes = others := by
  induction classes generalizing others with
  | nil =>
    cases others with
    | nil => rfl
    | cons b others =>
      have none := same b.name
      simp [named] at none
  | cons a classes ih =>
    cases others with
    | nil =>
      have none := same a.name
      simp [named] at none
    | cons b others =>
      have level : a.name = b.name := String.le_antisymm (head_name_le sorted same)
        (head_name_le sorted' fun name => (same name).symm)
      have heads := same a.name
      simp only [named, List.filter_cons, decide_true, if_true, level, List.cons.injEq] at heads
      obtain ⟨rfl, _⟩ := heads
      refine congrArg (a :: ·) (ih (List.pairwise_cons.mp sorted).2 (List.pairwise_cons.mp sorted').2 ?_)
      intro name
      have both := same name
      by_cases first : a.name = name
      · simpa [named, first] using both
      · simpa [named, first] using both

/-! ### Keeping the first of each name -/

/-- What is kept is found under its name first, as it was before. -/
theorem find?_keepFirst (classes kept : List ClassDecl) (name : String) :
    (keepFirst kept classes).1.find? (fun c => c.name = name) =
      (kept.reverse ++ classes).find? fun c => c.name = name := by
  induction classes generalizing kept with
  | nil => simp [keepFirst]
  | cons c classes ih =>
    rw [keepFirst]
    split
    · simpa using ih (c :: kept)
    · next k found =>
      change (keepFirst kept classes).1.find? _ = _
      rw [ih kept, List.find?_append, List.find?_append]
      by_cases isName : c.name = name
      · have before : (kept.reverse.find? fun c => decide (c.name = name)).isSome := by
          rw [List.find?_isSome]
          have isKept := List.mem_of_find?_eq_some found
          have same := List.find?_some found
          exact ⟨k, by simpa using isKept, by simpa [isName] using same⟩
        obtain ⟨d, isFirst⟩ := Option.isSome_iff_exists.mp before
        rw [isFirst, Option.some_or, Option.some_or]
      · rw [List.find?_cons_of_neg (by simpa using isName)]

theorem ofClasses_eq (classes : List ClassDecl) : ofClasses classes =
    (⟨(keepFirst [] (sortByName classes)).1.toArray⟩, (keepFirst [] (sortByName classes)).2) :=
  rfl

theorem toList_ofClasses (classes : List ClassDecl) :
    (ofClasses classes).1.classes.toList = (keepFirst [] (sortByName classes)).1 := by
  rw [ofClasses_eq, List.toList_toArray]

/-- The classes are found under their names as in the list. -/
theorem class?_ofClasses (classes : List ClassDecl) (name : String) :
    (ofClasses classes).1.class? name = classes.find? fun c => c.name = name := by
  rw [class?, ← Array.find?_toList, toList_ofClasses, find?_keepFirst, List.reverse_nil, List.nil_append,
    ← head?_named, named_sortByName, head?_named]

theorem nodup_classNames_ofClasses (classes : List ClassDecl) : (ofClasses classes).1.classNames.Nodup := by
  rw [classNames, toList_ofClasses]
  exact nodup_keepFirst _ [] (by simp)

/-- The names increase, and so do their bytes. -/
theorem increasing_ofClasses (classes : List ClassDecl) :
    (ofClasses classes).1.classes.toList.Pairwise fun a b => Text.utf8 a.name < Text.utf8 b.name := by
  have distinct := List.pairwise_map.mp (nodup_classNames_ofClasses classes)
  have sorted : Sorted (ofClasses classes).1.classes.toList := by
    rw [toList_ofClasses]
    exact (sorted_sortByName classes).sublist (sublist_keepFirst _ [])
  refine sorted.imp₂ ?_ distinct
  intro a b le other
  exact Text.utf8_lt (Std.lt_of_le_of_ne le other)

/-- A class of the program is the first of its name. -/
theorem mem_ofClasses_iff {c : ClassDecl} :
    c ∈ (ofClasses classes).1.classes ↔ (classes.find? fun d => d.name = c.name) = some c := by
  rw [← class?_ofClasses]
  constructor
  · intro inside
    have some : ((ofClasses classes).1.class? c.name).isSome := by
      rw [class?, Array.find?_isSome]
      exact ⟨c, inside, by simp⟩
    obtain ⟨d, first⟩ := Option.isSome_iff_exists.mp some
    have level : d.name = c.name := by simpa using Array.find?_some first
    have inside' := Array.mem_of_find?_eq_some first
    have same := List.inj_on_of_nodup_map (nodup_classNames_ofClasses classes) (Array.mem_toList_iff.mpr inside')
      (Array.mem_toList_iff.mpr inside) level
    rw [first, same]
  · exact fun first => Array.mem_of_find?_eq_some first

/-! ### The order of the classes -/

/-- The second list has the classes of the first in an order that differs between names only. -/
structure Rearranges (classes others : List ClassDecl) : Prop where
  perm : classes.Perm others
  order : ∀ name, named name classes = named name others

/-- The programs have the same classes and methods, and give the same answers. -/
structure Alike (p q : Program) : Prop where
  classes : p.classes = q.classes
  methods : p.methods = q.methods
  lookup : ∀ owner name params, p.lookup owner name params = q.lookup owner name params
  findMethods : ∀ owner name params, p.findMethods owner name params = q.findMethods owner name params
  resolveMethod? : ∀ r, p.resolveMethod? r = q.resolveMethod? r
  resolveField? : ∀ owner name, p.resolveField? owner name = q.resolveField? owner name
  subclasses : ∀ name, p.subclasses name = q.subclasses name
  supertypes : ∀ name, p.supertypes name = q.supertypes name
  implementations : ∀ id, p.implementations id = q.implementations id

/-- Sorting makes one list of all rearrangements, so what is kept and what is reported is the same. -/
theorem ofClasses_eq_of_rearranges (rearranges : Rearranges classes others) : ofClasses classes = ofClasses others := by
  have sorted : sortByName classes = sortByName others := by
    refine (sorted_sortByName classes).eq (sorted_sortByName others) fun name => ?_
    rw [named_sortByName, named_sortByName, rearranges.order]
  rw [ofClasses_eq, ofClasses_eq, sorted]

/-- The program has the first class of each name, in the order of the bytes of the names, and finds it under its name.
A rearrangement of the classes makes the same program. -/
theorem ofClasses_sorted_first (classes : List ClassDecl) :
    ((ofClasses classes).1.classes.toList.Pairwise fun a b => Text.utf8 a.name < Text.utf8 b.name) ∧
    (∀ c, c ∈ (ofClasses classes).1.classes ↔ (classes.find? fun d => d.name = c.name) = some c) ∧
    (∀ name, (ofClasses classes).1.class? name = classes.find? fun c => c.name = name) ∧
    ∀ others, Rearranges classes others → Alike (ofClasses classes).1 (ofClasses others).1 := by
  refine ⟨increasing_ofClasses classes, fun c => mem_ofClasses_iff, class?_ofClasses classes, ?_⟩
  intro others rearranges
  rw [ofClasses_eq_of_rearranges rearranges]
  constructor <;> intros <;> rfl

/-- A class, its superclass, and a copy of the class in another file. -/
def copied : List ClassDecl := [
  { name := "LB;", superName := "LA;", path := "B.smali" },
  { name := "LA;", superName := "Ljava/lang/Object;", path := "A.smali" },
  { name := "LB;", superName := "LC;", path := "Copy.smali" }]

/-- The same classes, the superclass first. -/
def superFirst : List ClassDecl := [
  { name := "LA;", superName := "Ljava/lang/Object;", path := "A.smali" },
  { name := "LB;", superName := "LA;", path := "B.smali" },
  { name := "LB;", superName := "LC;", path := "Copy.smali" }]

theorem rearranges_copied : Rearranges copied superFirst where
  perm := List.Perm.swap _ _ _
  order name := by
    by_cases isA : "LA;" = name
    · subst isA
      rfl
    · simp [copied, superFirst, named, List.filter_cons, isA]

/-- In either order the copy is left out, and the class stays below its superclass. -/
theorem alike_copied : Rearranges copied superFirst ∧ Alike (ofClasses copied).1 (ofClasses superFirst).1 ∧
    ((ofClasses superFirst).1.class? "LB;").map ClassDecl.path = some "B.smali" := by
  obtain ⟨_, _, found, _⟩ := ofClasses_sorted_first superFirst
  obtain ⟨_, _, _, same⟩ := ofClasses_sorted_first copied
  refine ⟨rearranges_copied, same superFirst rearranges_copied, ?_⟩
  rw [found]
  rfl

end SmaliTrace.Program
