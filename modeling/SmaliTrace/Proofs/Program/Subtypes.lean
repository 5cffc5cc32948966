import SmaliTrace.Proofs.Graph.ShortestPath
import SmaliTrace.Proofs.Program.Hierarchy

/-!
The types below and above a class, whatever the shape of the hierarchy: superclasses in a circle, a type that is
reached in several ways, types that no class of the program declares. Both walks give the classes that a number of
steps leads to, each once and nearer ones first, and they are converse to each other.
-/
namespace SmaliTrace.Program
open SmaliTrace.ClassFile

variable {p : Program} {sub sup name c : String} {k : Nat}

/-! ### Steps up the hierarchy -/

/-- A class of the program names the type as its superclass or among its interfaces. -/
def StepsUp (p : Program) (sub sup : String) : Prop :=
  ∃ c ∈ p.classes, c.name = sub ∧ ((c.superName ≠ "" ∧ c.superName = sup) ∨ sup ∈ c.interfaces)

/-- The number of steps leads from the first type up to the second. -/
def Climbs (p : Program) (sub : String) : Nat → String → Prop
  | 0, sup => sup = sub
  | k + 1, sup => ∃ between, p.Climbs sub k between ∧ p.StepsUp between sup

theorem StepsUp.mem_classNames (up : p.StepsUp sub sup) : sub ∈ p.classNames := by
  obtain ⟨c, inside, rfl, _⟩ := up
  exact List.mem_map.mpr ⟨c, by simpa using inside, rfl⟩

/-- The first step can be taken off as well as the last. -/
theorem climbs_succ_iff : p.Climbs sub (k + 1) sup ↔ ∃ between, p.StepsUp sub between ∧ p.Climbs between k sup := by
  induction k generalizing sup with
  | zero => simp [Climbs]
  | succ k ih =>
    constructor
    · rintro ⟨last, before, up⟩
      obtain ⟨between, first, further⟩ := ih.mp before
      exact ⟨between, first, last, further, up⟩
    · rintro ⟨between, first, last, further, up⟩
      exact ⟨last, ih.mpr ⟨between, first, further⟩, up⟩

/-! ### What a walk over the hierarchy lists -/

/-- The names of the classes that one or more steps lead to, each once, without the start of the walk and nearer ones
first. `away` says how many steps lead to a type. -/
structure NearestFirst (p : Program) (start : String) (away : Nat → String → Prop) (found : List String) : Prop where
  nodup : found.Nodup
  mem_iff : ∀ c, c ∈ found ↔ c ∈ p.classNames ∧ c ≠ start ∧ ∃ k, away (k + 1) c
  ordered : found.Pairwise fun c d => ∃ i j, IsLeast {k | away k c} i ∧ IsLeast {k | away k d} j ∧ i ≤ j

/-- A breadth-first walk lists so what its own steps lead to. -/
theorem nearestFirst_breadthFirst {next : String → List String} {away : Nat → String → Prop}
    (distinct : p.classNames.Nodup)
    (steps : ∀ k c, c ∈ p.classNames → (Graph.Steps next p.classNames name k c ↔ away k c)) :
    p.NearestFirst name away (Graph.breadthFirst next (p.classNames.erase name) [name]) where
  nodup := Graph.nodup_breadthFirst next _ _
  mem_iff c := by
    rw [Graph.mem_breadthFirst_erase_iff distinct, Graph.transGen_enters_iff]
    constructor
    · rintro ⟨other, k, reached⟩
      obtain ⟨_, _, enters⟩ := id reached
      exact ⟨enters.2, other, k, (steps (k + 1) c enters.2).mp reached⟩
    · rintro ⟨isClass, other, k, reached⟩
      exact ⟨other, k, (steps (k + 1) c isClass).mpr reached⟩
  ordered := by
    have isLeast : ∀ {n c}, c ∈ Graph.breadthFirst next (p.classNames.erase name) [name] →
        Graph.Distance next p.classNames name n c → IsLeast {k | away k c} n := by
      intro n c found far
      have isClass := List.mem_of_mem_erase (Graph.mem_unseen_of_mem_breadthFirst found)
      refine ⟨(steps n c isClass).mp far.1, fun k reached => far.2 k ?_⟩
      exact (steps k c isClass).mpr reached
    refine ((Graph.layered_start distinct).pairwise_breadthFirst rfl).imp_of_mem ?_
    rintro c d first second ⟨i, j, far, far', le⟩
    exact ⟨i, j, isLeast first far, isLeast second far', le⟩

/-- The walk down goes up the hierarchy backwards. -/
theorem steps_directSubtypes : Graph.Steps p.directSubtypes p.classNames name k c ↔ p.Climbs c k name := by
  induction k generalizing c with
  | zero =>
    simp only [Graph.Steps, Climbs]
    exact eq_comm
  | succ k ih =>
    rw [climbs_succ_iff]
    constructor
    · rintro ⟨between, further, enters⟩
      exact ⟨between, mem_directSubtypes.mp enters.1, ih.mp further⟩
    · rintro ⟨between, up, further⟩
      exact ⟨between, ih.mpr further, mem_directSubtypes.mpr up, up.mem_classNames⟩

namespace WellFormed

variable (wf : p.WellFormed)
include wf

theorem mem_directSupertypes_iff : sup ∈ p.directSupertypes sub ↔ p.StepsUp sub sup := by
  constructor
  · intro named
    unfold directSupertypes at named
    split at named
    · next c isClass =>
      have inside := Array.mem_of_find?_eq_some isClass
      have isSub : c.name = sub := by simpa using Array.find?_some isClass
      refine ⟨c, inside, isSub, ?_⟩
      by_cases root : c.superName = ""
      · right
        simpa [root] using named
      · simpa [root, eq_comm] using named
    · simp at named
  · intro up
    exact wf.mem_directSupertypes (mem_directSubtypes.mpr up)

/-- The walk up passes classes of the program only, as does everything that takes steps. -/
theorem steps_directSupertypes (isClass : c ∈ p.classNames) :
    Graph.Steps p.directSupertypes p.classNames name k c ↔ p.Climbs name k c := by
  induction k generalizing c with
  | zero => exact Iff.rfl
  | succ k ih =>
    constructor
    · rintro ⟨between, before, enters⟩
      have up := wf.mem_directSupertypes_iff.mp enters.1
      exact ⟨between, (ih up.mem_classNames).mp before, up⟩
    · rintro ⟨between, before, up⟩
      exact ⟨between, (ih up.mem_classNames).mpr before, wf.mem_directSupertypes_iff.mpr up, isClass⟩

theorem nearestFirst_subclasses (name : String) :
    p.NearestFirst name (fun k c => p.Climbs c k name) (p.subclasses name) :=
  nearestFirst_breadthFirst wf.distinct fun _ _ _ => steps_directSubtypes

theorem nearestFirst_supertypes (name : String) :
    p.NearestFirst name (fun k c => p.Climbs name k c) (p.supertypes name) :=
  nearestFirst_breadthFirst wf.distinct fun _ _ isClass => wf.steps_directSupertypes isClass

/-- Below a type are the classes from which steps lead up to it, and above it the classes that steps up lead to, both
nearest first. One class is below another exactly if the other is above it. -/
theorem nearestFirst_converse :
    (∀ name, p.NearestFirst name (fun k c => p.Climbs c k name) (p.subclasses name)) ∧
    (∀ name, p.NearestFirst name (fun k c => p.Climbs name k c) (p.supertypes name)) ∧
    ∀ c ∈ p.classNames, ∀ d ∈ p.classNames, c ≠ d → (c ∈ p.subclasses d ↔ d ∈ p.supertypes c) := by
  refine ⟨wf.nearestFirst_subclasses, wf.nearestFirst_supertypes, ?_⟩
  intro c isC d isD other
  rw [(wf.nearestFirst_subclasses d).mem_iff, (wf.nearestFirst_supertypes c).mem_iff]
  constructor
  · rintro ⟨_, _, path⟩
    exact ⟨isD, other.symm, path⟩
  · rintro ⟨_, _, path⟩
    exact ⟨isC, other, path⟩

end WellFormed

/-- Two classes that are superclasses of each other; one of them reaches the interface above it in two ways, and the
interface and a class name types that are not in the program. -/
def circleAndDiamond : Program where
  classes := #[
    { name := "LBoth;", superName := "LLeft;", interfaces := ["LRight;"], path := "Both.smali" },
    { name := "LLeft;", superName := "LBoth;", interfaces := ["LTop;"], path := "Left.smali" },
    { name := "LRight;", superName := "Ljava/lang/Object;", interfaces := ["LTop;"], path := "Right.smali" },
    { name := "LTop;", superName := "Ljava/lang/Object;", interfaces := ["LMissing;"], path := "Top.smali" }]

theorem wellFormed_circleAndDiamond : circleAndDiamond.WellFormed where
  classes := by
    intro c inside
    simp only [circleAndDiamond, List.mem_toArray, List.mem_cons, List.not_mem_nil, or_false] at inside
    rcases inside with rfl | rfl | rfl | rfl <;> exact ⟨by decide, by simp⟩
  distinct := by decide

/-- The circle is walked once, and the type that is missing has classes below it all the same. -/
theorem nearestFirst_circleAndDiamond :
    circleAndDiamond.WellFormed ∧
    circleAndDiamond.subclasses "LMissing;" = ["LTop;", "LLeft;", "LRight;", "LBoth;"] ∧
    circleAndDiamond.supertypes "LBoth;" = ["LLeft;", "LRight;", "LTop;"] ∧
    circleAndDiamond.NearestFirst "LMissing;" (fun k c => circleAndDiamond.Climbs c k "LMissing;")
      ["LTop;", "LLeft;", "LRight;", "LBoth;"] ∧
    circleAndDiamond.NearestFirst "LBoth;" (fun k c => circleAndDiamond.Climbs "LBoth;" k c)
      ["LLeft;", "LRight;", "LTop;"] ∧
    ("LBoth;" ∈ circleAndDiamond.subclasses "LTop;" ↔ "LTop;" ∈ circleAndDiamond.supertypes "LBoth;") := by
  have below : circleAndDiamond.subclasses "LMissing;" = ["LTop;", "LLeft;", "LRight;", "LBoth;"] := by cbv
  have above : circleAndDiamond.supertypes "LBoth;" = ["LLeft;", "LRight;", "LTop;"] := by cbv
  obtain ⟨down, up, converse⟩ := WellFormed.nearestFirst_converse wellFormed_circleAndDiamond
  refine ⟨wellFormed_circleAndDiamond, below, above, ?_, ?_, ?_⟩
  · simpa only [below] using down "LMissing;"
  · simpa only [above] using up "LBoth;"
  · exact converse "LBoth;" (by decide) "LTop;" (by decide) (by decide)

end SmaliTrace.Program
