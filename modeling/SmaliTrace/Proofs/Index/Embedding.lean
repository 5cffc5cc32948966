import SmaliTrace.Proofs.Index.Sites
import SmaliTrace.Proofs.Program.Restriction

/-!
One index inside another. The classes of a smaller program stand at other positions in a larger one, and every
question that a search puts at one of its lines has there the answer that it has in the smaller program.
-/
namespace SmaliTrace
open SmaliTrace.ClassFile SmaliTrace.Smali
open SmaliTrace.Text (Octets)

def Site.rename (f : Nat → Nat) (s : Site) : Site := { s with method := s.method.rename f }

/-- The site is one of a line of the program. -/
def Program.Holds (p : Program) (s : Site) : Prop := p.line? s.method s.index = some s.line

namespace Index

/-- The index of the part agrees with that of the whole, in which its classes have the given positions. The whole
may hold more classes, so references are compared at lines of the part only. -/
structure Embeds (f : Nat → Nat) (part whole : Index) : Prop where
  injective : f.Injective
  classes : ∀ i, whole.program.classes[f i]? = part.program.classes[i]?
  owned : ∀ {m method}, part.program.method? m = some method → method.owner ∈ part.program.classNames
  declared? : ∀ {owner}, owner ∈ part.program.classNames → ∀ name params,
    whole.program.declared? owner name params =
      (part.program.declared? owner name params).map (MethodId.rename f)
  fieldKey : ∀ {s ref}, part.program.Holds s → s.operation.field? = some ref →
    whole.program.fieldKey ref = part.program.fieldKey ref
  resolveField? : ∀ {s ref}, part.program.Holds s → s.operation.field? = some ref →
    whole.program.resolveField? (part.program.fieldTarget ref).1 (part.program.fieldTarget ref).2 =
      (part.program.resolveField? (part.program.fieldTarget ref).1 (part.program.fieldTarget ref).2).map
        (Prod.map f id)
  graph? : ∀ m, whole.graph? (m.rename f) = part.graph? m
  resolve? : ∀ {s ref}, part.program.Holds s → s.operation.method? = some ref →
    whole.resolve? ref = (part.resolve? ref).map (MethodId.rename f)
  implementations : ∀ m, whole.implementations (m.rename f) = (part.implementations m).map (MethodId.rename f)
  returns : ∀ m, whole.returns (m.rename f) = (part.returns m).map (LineId.rename f)
  returnsOf : ∀ owner name params, (whole.program.findMethods owner name params).flatMap whole.returns =
    ((part.program.findMethods owner name params).flatMap part.returns).map (LineId.rename f)
  callSitesOf : ∀ m, whole.callSitesOf (m.rename f) = (part.callSitesOf m).map (LineId.rename f)
  callSitesMatching : ∀ owner name params, whole.callSitesMatching owner name params =
    (part.callSitesMatching owner name params).map (LineId.rename f)
  fieldWrites : ∀ key, whole.fieldWrites key = (part.fieldWrites key).map (LineId.rename f)
  fieldReads : ∀ key, whole.fieldReads key = (part.fieldReads key).map (LineId.rename f)
  literalSites : ∀ value : Octets, whole.literalSites value = (part.literalSites value).map (LineId.rename f)
  allocationSites : ∀ type, whole.allocationSites type = (part.allocationSites type).map (LineId.rename f)

/-! ### Lines of the program -/

section
variable {x : Index} {s t : Site} {b : BlockId} {l : LineId}

theorem holds_of_mem_sites (inside : s ∈ x.sites b) : x.program.Holds s := by
  unfold sites at inside
  split at inside
  · simp at inside
  · obtain ⟨_, _, made⟩ := List.mem_filterMap.mp inside
    obtain ⟨line, isLine, rfl⟩ := Option.map_eq_some_iff.mp made
    exact isLine

theorem holds_of_mem_sitesBefore (inside : t ∈ x.sitesBefore s) : x.program.Holds t :=
  holds_of_mem_sites (List.mem_of_mem_take (List.mem_reverse.mp inside))

theorem holds_of_previousExecutable? (found : x.previousExecutable? s = some t) : x.program.Holds t := by
  unfold previousExecutable? at found
  split at found
  · next u inBlock =>
    cases found
    exact holds_of_mem_sitesBefore (List.mem_of_find?_eq_some inBlock)
  · obtain ⟨b, _, before⟩ := Option.bind_eq_some_iff.mp found
    exact holds_of_mem_sites (List.mem_reverse.mp (List.mem_of_find?_eq_some before))

theorem holds_of_definition? {r : Register} (found : x.definition? s r = some t) : x.program.Holds t :=
  holds_of_mem_sitesBefore (List.mem_of_find?_eq_some found)

end

/-! ### Answers about lines and blocks -/

namespace Embeds

variable {f : Nat → Nat} {part whole : Index} (embeds : part.Embeds f whole)
include embeds

theorem method? (m : MethodId) : whole.program.method? (m.rename f) = part.program.method? m := by
  unfold Program.method? MethodId.rename
  rw [embeds.classes]

theorem line? (m : MethodId) (i : Nat) : whole.program.line? (m.rename f) i = part.program.line? m i := by
  unfold Program.line?
  rw [embeds.method?]

theorem field? (c i : Nat) : whole.program.field? (f c) i = part.program.field? c i := by
  unfold Program.field?
  rw [embeds.classes]

theorem methodText (m : MethodId) : whole.program.methodText (m.rename f) = part.program.methodText m := by
  unfold Program.methodText
  rw [embeds.method?]

theorem label (l : LineId) : whole.program.label (l.rename f) = part.program.label l := by
  cases l with
  | body m i => simp only [Program.label, LineId.rename, embeds.method?]
  | declaration c i => simp only [Program.label, LineId.rename, embeds.classes]

theorem fieldTarget {s : Site} {ref : FieldRef} (holds : part.program.Holds s)
    (accesses : s.operation.field? = some ref) :
    whole.program.fieldTarget ref = part.program.fieldTarget ref := by
  unfold Program.fieldTarget
  rw [embeds.fieldKey holds accesses]

theorem callee? (l : LineId) : whole.callee? (l.rename f) = part.callee? l := by
  cases l with
  | body m i => simp only [Index.callee?, LineId.rename, embeds.line?]
  | declaration c i => rfl

theorem hasBody (m : MethodId) : whole.hasBody (m.rename f) = part.hasBody m := by
  unfold Index.hasBody
  rw [embeds.graph?]

theorem block? (b : BlockId) : whole.block? (b.rename f) = part.block? b := by
  unfold Index.block? BlockId.rename
  rw [embeds.graph?]

theorem sites (b : BlockId) : whole.sites (b.rename f) = (part.sites b).map (Site.rename f) := by
  unfold Index.sites
  rw [embeds.block?]
  cases part.block? b with
  | none => rfl
  | some block =>
    dsimp only
    rw [List.map_filterMap]
    congr 1
    funext entry
    rw [show (b.rename f).method = b.method.rename f from rfl, embeds.line?, Option.map_map]
    rfl

theorem locate? (l : LineId) :
    whole.locate? (l.rename f) = (part.locate? l).map (Prod.map (BlockId.rename f) id) := by
  cases l with
  | declaration c i => rfl
  | body m i =>
    simp only [Index.locate?, LineId.rename, embeds.graph?]
    cases part.graph? m with
    | none => rfl
    | some g => cases found : g.locate? i <;> simp [found, BlockId.rename]

theorem site? (l : LineId) : whole.site? (l.rename f) = (part.site? l).map (Site.rename f) := by
  cases l with
  | declaration c i => rfl
  | body m i =>
    have located := embeds.locate? (.body m i)
    rw [LineId.rename] at located
    simp only [Index.site?, LineId.rename, located, embeds.line?]
    cases part.locate? (.body m i) with
    | none => rfl
    | some place => cases part.program.line? m i <;> simp [Site.rename, BlockId.rename]

theorem sitesOf (lines : List LineId) :
    whole.sitesOf (lines.map (LineId.rename f)) = (part.sitesOf lines).map (Site.rename f) := by
  unfold Index.sitesOf
  rw [List.filterMap_map, List.map_filterMap]
  congr 1
  funext l
  exact embeds.site? l

theorem sitesBefore (s : Site) : whole.sitesBefore (s.rename f) = (part.sitesBefore s).map (Site.rename f) := by
  unfold Index.sitesBefore
  rw [show (s.rename f).blockId = s.blockId.rename f from rfl, embeds.sites, ← List.map_take, ← List.map_reverse]
  rfl

theorem sitesAfter (s : Site) : whole.sitesAfter (s.rename f) = (part.sitesAfter s).map (Site.rename f) := by
  unfold Index.sitesAfter
  rw [show (s.rename f).blockId = s.blockId.rename f from rfl, embeds.sites, ← List.map_drop]
  rfl

theorem onlyNeighbour? (s : Site) (side : BlockGraph.Block → List Nat) :
    whole.onlyNeighbour? (s.rename f) side = (part.onlyNeighbour? s side).map (BlockId.rename f) := by
  unfold Index.onlyNeighbour?
  rw [show (s.rename f).blockId = s.blockId.rename f from rfl, embeds.block?]
  split
  · rfl
  · rfl

omit embeds in
private theorem find?_executable_rename (sites : List Site) :
    (sites.map (Site.rename f)).find? (fun t => t.line.executable) =
      (sites.find? fun t => t.line.executable).map (Site.rename f) :=
  List.find?_map ..

theorem nextExecutable? (s : Site) :
    whole.nextExecutable? (s.rename f) = (part.nextExecutable? s).map (Site.rename f) := by
  unfold Index.nextExecutable?
  rw [embeds.sitesAfter, find?_executable_rename, embeds.onlyNeighbour?]
  cases (part.sitesAfter s).find? fun t => t.line.executable with
  | some t => rfl
  | none =>
    cases part.onlyNeighbour? s (·.succs) with
    | none => rfl
    | some b =>
      simp only [Option.map_some, Option.bind_eq_bind, Option.bind_some]
      rw [embeds.sites, find?_executable_rename]
      rfl

theorem previousExecutable? (s : Site) :
    whole.previousExecutable? (s.rename f) = (part.previousExecutable? s).map (Site.rename f) := by
  unfold Index.previousExecutable?
  rw [embeds.sitesBefore, find?_executable_rename, embeds.onlyNeighbour?]
  cases (part.sitesBefore s).find? fun t => t.line.executable with
  | some t => rfl
  | none =>
    cases part.onlyNeighbour? s (·.preds) with
    | none => rfl
    | some b =>
      simp only [Option.map_some, Option.bind_eq_bind, Option.bind_some]
      rw [embeds.sites, ← List.map_reverse, find?_executable_rename]
      rfl

theorem definition? (s : Site) (r : Register) :
    whole.definition? (s.rename f) r = (part.definition? s r).map (Site.rename f) := by
  unfold Index.definition?
  rw [embeds.sitesBefore, List.find?_map]
  rfl

end Embeds

end Index

end SmaliTrace
