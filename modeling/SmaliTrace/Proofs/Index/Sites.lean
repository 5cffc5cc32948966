import SmaliTrace.Index.Site
import SmaliTrace.Proofs.BlockGraph.Edges

/-!
The index of a program holds the block graphs of its methods, and the sites of a block are its lines in
order.
-/
namespace SmaliTrace.Index
open SmaliTrace.ClassFile SmaliTrace.Smali

variable {x : Index}

/-- Every graph of the index is that of its method. -/
def Faithful (x : Index) : Prop :=
  ∀ id g, x.graph? id = some g → ∃ m, x.program.method? id = some m ∧ BlockGraph.ofMethod m = .ok g

/-- Every graph that was prepared is that of its method. -/
private def Prepares (p : Program) (s : Preparation) : Prop :=
  ∀ (id : MethodId) (g : BlockGraph.Graph), s.prepared[id]? = some (.built g) →
    ∃ m, p.method? id = some m ∧ BlockGraph.ofMethod m = .ok g

private theorem prepares_insert {p : Program} {s : Preparation} (prepares : Prepares p s) {id : MethodId}
    {outcome : Prepared} {tally : Tally} {log : List LogEntry}
    (fits : ∀ g, outcome = .built g → ∃ m, p.method? id = some m ∧ BlockGraph.ofMethod m = .ok g) :
    Prepares p ⟨s.prepared.insert id outcome, tally, log⟩ := by
  intro other g found
  simp only [Std.HashMap.getElem?_insert, beq_iff_eq] at found
  split at found
  · next same =>
    subst same
    exact fits g (Option.some.inj found)
  · exact prepares other g found

theorem ofMethod_of_isEmpty {m : Method} (empty : m.lines.isEmpty = true) (sound : m.fault = none) :
    BlockGraph.ofMethod m = .ok {} := by
  have none : m.lines.size = 0 := by simpa [Array.isEmpty] using empty
  simp [BlockGraph.ofMethod, sound, BlockGraph.build, none]

private theorem prepares_visit {p : Program} {s : Preparation} (prepares : Prepares p s) (id : MethodId) :
    Prepares p (s.visit p id) := by
  unfold Preparation.visit
  split
  · exact prepares
  · next m found =>
    split
    · next empty =>
      refine prepares_insert prepares fun g built => ⟨m, found, ?_⟩
      split at built
      · simp at built
      · next sound =>
        cases built
        exact ofMethod_of_isEmpty empty sound
    · split
      · exact prepares_insert prepares fun g built => by simp at built
      · next g made =>
        refine prepares_insert prepares fun g' built => ⟨m, found, ?_⟩
        cases built
        exact made

private theorem prepares_foldl {p : Program} (methods : List MethodId) {s : Preparation}
    (prepares : Prepares p s) : Prepares p (methods.foldl (Preparation.visit p) s) := by
  induction methods generalizing s with
  | nil => exact prepares
  | cons id methods ih => exact ih (prepares_visit prepares id)

/-- Filing the summaries changes neither the program nor the prepared methods. -/
theorem foldl_add_frame (p : Program) (base : Index) (methods : List MethodId) (x : Index) :
    let filed := methods.foldl (fun x id =>
      match base.graph? id with
      | some g => if g.blocks.isEmpty then x else x.add (Summary.ofGraph p id g)
      | none => x) x
    filed.program = x.program ∧ filed.prepared = x.prepared := by
  induction methods generalizing x with
  | nil => exact ⟨rfl, rfl⟩
  | cons id methods ih =>
    rw [List.foldl_cons]
    split
    · split
      · exact ih x
      · exact ih _
    · exact ih x

@[simp] theorem program_ofProgram (p : Program) (excluded : List String) :
    (ofProgram p excluded).index.program = p :=
  (foldl_add_frame ..).1

theorem faithful_ofProgram (p : Program) (excluded : List String) : (ofProgram p excluded).index.Faithful := by
  have start : ∀ tally, Prepares p { tally := tally } := by
    intro tally id g found
    simp at found
  intro id g found
  have built : (ofProgram p excluded).index.prepared[id]? = some (.built g) := by
    unfold graph? at found
    split at found
    · next built => rwa [Option.some.inj found] at built
    · simp at found
  rw [program_ofProgram]
  exact prepares_foldl (candidates p excluded) (start _) id g ((foldl_add_frame ..).2 ▸ built)

/-! ### Tables -/

section Tables

variable {κ : Type} [BEq κ] [Hashable κ]

theorem merge_empty (t : LineTable κ) : merge t {} = t := by
  simp [merge, Std.HashMap.fold_eq_foldl_toList]

variable [LawfulBEq κ] [LawfulHashable κ]

theorem toList_lines_file (t : LineTable κ) (key other : κ) (line : LineId) :
    ((t.file key line).lines other).toList = (t.lines other).toList ++ if key == other then [line] else [] := by
  by_cases same : key = other
  · subst same
    simp [LineTable.file, LineTable.lines]
  · simp [LineTable.file, LineTable.lines, Std.HashMap.getD_insert, same]

/-- Merging a table of one line into an empty one gives it back. -/
theorem merge_file (k : κ) (line : LineId) : merge {} (LineTable.file {} k line) = LineTable.file {} k line := by
  have one : (LineTable.file {} k line).toList.length = 1 := by
    simp [LineTable.file, Std.HashMap.length_toList, Std.HashMap.size_insert]
  have inside : (k, #[line]) ∈ (LineTable.file {} k line).toList := by
    simp [Std.HashMap.mem_toList_iff_getElem?_eq_some, LineTable.file, LineTable.lines]
  obtain ⟨e, only⟩ := List.length_eq_one_iff.mp one
  rw [only] at inside
  rw [merge, Std.HashMap.fold_eq_foldl_toList, only, ← List.mem_singleton.mp inside]
  simp [LineTable.file, LineTable.lines]

theorem toList_lines_foldl_file (key : LineId → κ) (lines : List LineId) (t : LineTable κ) (k : κ) :
    ((lines.foldl (fun t id => t.file (key id) id) t).lines k).toList =
      (t.lines k).toList ++ lines.filter fun id => key id == k := by
  induction lines generalizing t with
  | nil => simp
  | cons l lines ih =>
    rw [List.foldl_cons, ih, toList_lines_file, List.filter_cons, List.append_assoc]
    split <;> simp

end Tables

/-- The index of a program with a single method to look at. -/
theorem index_ofProgram_of_candidates {p : Program} {excluded : List String} {id : MethodId} {m : Method}
    {g : BlockGraph.Graph} (only : candidates p excluded = [id]) (isMethod : p.method? id = some m)
    (busy : m.lines ≠ #[]) (built : BlockGraph.ofMethod m = .ok g)
    (blocks : g.blocks ≠ #[]) :
    (ofProgram p excluded).index = Index.add
      { program := p, prepared := Std.HashMap.insert {} id (.built g) } (Summary.ofGraph p id g) := by
  simp [ofProgram, only, Preparation.visit, isMethod, built, busy, graph?, blocks]

/-! ### A single prepared method -/

section Single

variable {id : MethodId} {g : BlockGraph.Graph} (prepared : x.prepared = Std.HashMap.insert {} id (.built g))
include prepared

theorem graph?_of_prepared : x.graph? id = some g := by simp [graph?, prepared]

theorem block?_of_prepared (b : Nat) : x.block? ⟨id, b⟩ = g.blocks[b]? := by
  simp [block?, graph?_of_prepared prepared]

theorem sites_of_prepared {b : Nat} {block : BlockGraph.Block} (isBlock : g.blocks[b]? = some block) :
    x.sites ⟨id, b⟩ = block.lines.zipIdx.filterMap fun (i, position) =>
      (x.program.line? id i).map fun line => ⟨id, i, line, b, position⟩ := by
  simp [sites, block?_of_prepared prepared, isBlock]

theorem site?_of_prepared {i b position : Nat} {line : CodeLine} (located : g.locate? i = some (b, position))
    (isLine : x.program.line? id i = some line) : x.site? (.body id i) = some ⟨id, i, line, b, position⟩ := by
  simp [site?, locate?, graph?_of_prepared prepared, located, isLine]

end Single

/-! ### A program of one method -/

/-- A class with one method, as a program. -/
def oneMethod (m : Method) : Program := ⟨#[{ path := "Main.smali", name := "LMain;", methods := #[m] }]⟩

/-- The index of that program where there is nothing to file but calls, told by their lines. -/
def single (m : Method) (g : BlockGraph.Graph) (calls : List Nat) : Index where
  program := oneMethod m
  prepared := Std.HashMap.insert {} ⟨0, 0⟩ (.built g)
  summaries := #[{ method := ⟨0, 0⟩, invokes := (calls.map (LineId.body ⟨0, 0⟩)).toArray }]
  callSites := (calls.map (LineId.body ⟨0, 0⟩)).foldl (fun t id => t.file (calleeName (oneMethod m) id) id) {}

section OneMethod

variable {m : Method} {g : BlockGraph.Graph} {calls : List Nat}

theorem index_oneMethod (busy : m.lines ≠ #[]) (built : BlockGraph.ofMethod m = .ok g) (blocks : g.blocks ≠ #[])
    (summary : Summary.ofGraph (oneMethod m) ⟨0, 0⟩ g =
      { method := ⟨0, 0⟩, invokes := (calls.map (LineId.body ⟨0, 0⟩)).toArray }) :
    (ofProgram (oneMethod m) []).index = single m g calls := by
  have only : candidates (oneMethod m) [] = [⟨0, 0⟩] := rfl
  rw [index_ofProgram_of_candidates only rfl busy built blocks, summary]
  simp only [add, merge_empty, List.foldl_toArray]
  rfl

theorem lines_single (name : String) : ((single m g calls).callSites.lines name).toList =
    (calls.map (LineId.body ⟨0, 0⟩)).filter fun id => calleeName (oneMethod m) id == name := by
  have filed := toList_lines_foldl_file (calleeName (oneMethod m)) (calls.map (LineId.body ⟨0, 0⟩)) {} name
  rwa [show (LineTable.lines ({} : LineTable String) name).toList = [] by simp [LineTable.lines], List.nil_append] at filed

end OneMethod

/-! ### Sites -/

private theorem getElem?_filterMap_of_isSome {α β : Type} {f : α → Option β} {items : List α}
    (total : ∀ a ∈ items, (f a).isSome) (n : Nat) : (items.filterMap f)[n]? = items[n]?.bind f := by
  induction items generalizing n with
  | nil => simp
  | cons a items ih =>
    obtain ⟨b, made⟩ := Option.isSome_iff_exists.mp (total a (by simp))
    rw [List.filterMap_cons_some made]
    cases n with
    | zero => simp [made]
    | succ n => simpa using ih (fun a inside => total a (by simp [inside])) n

namespace Faithful

variable (faithful : x.Faithful)
include faithful

theorem exists_hasFlow {b : BlockId} {block : BlockGraph.Block} (found : x.block? b = some block) :
    ∃ m g flow, x.program.method? b.method = some m ∧ x.graph? b.method = some g ∧
      BlockGraph.HasFlow m g flow ∧ g.blocks[b.index]? = some block := by
  obtain ⟨g, graph, atIndex⟩ := Option.bind_eq_some_iff.mp found
  obtain ⟨m, isMethod, built⟩ := faithful _ g graph
  rcases BlockGraph.blocks_eq_empty_or_hasFlow built with rfl | ⟨flow, has⟩
  · simp at atIndex
  · exact ⟨m, g, flow, isMethod, graph, has, atIndex⟩

/-- The lines of a block are lines of its body. -/
theorem isSome_line? {b : BlockId} {block : BlockGraph.Block} (found : x.block? b = some block) {i : Nat}
    (inside : i ∈ block.lines) : (x.program.line? b.method i).isSome := by
  obtain ⟨m, g, flow, isMethod, _, has, atIndex⟩ := faithful.exists_hasFlow found
  have bound : i < m.lines.size :=
    BlockGraph.lt_size_of_mem_part has.live (List.mem_of_getElem? (has.part_of_block atIndex)) inside
  simp [Program.line?, isMethod, bound]

/-- The sites of a block are its lines, each at its own position. -/
theorem getElem?_sites {b : BlockId} {block : BlockGraph.Block} (found : x.block? b = some block) (n : Nat) :
    (x.sites b)[n]? = block.lines[n]?.bind fun i =>
      (x.program.line? b.method i).map fun line => ⟨b.method, i, line, b.index, n⟩ := by
  have total : ∀ a ∈ block.lines.zipIdx, (Option.map (fun line =>
      (⟨b.method, a.1, line, b.index, a.2⟩ : Site)) (x.program.line? b.method a.1)).isSome := by
    rintro ⟨i, position⟩ inside
    rw [Option.isSome_map]
    exact faithful.isSome_line? found (List.fst_mem_of_mem_zipIdx inside)
  simp only [sites, found]
  rw [getElem?_filterMap_of_isSome total, List.getElem?_zipIdx]
  cases block.lines[n]? <;> simp

theorem length_sites {b : BlockId} {block : BlockGraph.Block} (found : x.block? b = some block) :
    (x.sites b).length = block.lines.length := by
  refine Nat.le_antisymm ?_ ?_
  · rw [← List.getElem?_eq_none_iff, faithful.getElem?_sites found, List.getElem?_eq_none (Nat.le_refl _)]
    rfl
  · by_contra less
    have bound : (x.sites b).length < block.lines.length := by omega
    obtain ⟨line, isLine⟩ := Option.isSome_iff_exists.mp (faithful.isSome_line? found (List.getElem_mem bound))
    have beyond := faithful.getElem?_sites found (x.sites b).length
    simp [List.getElem?_eq_getElem bound, isLine] at beyond

theorem site_of_getElem? {b : BlockId} {n : Nat} {s : Site} (atPosition : (x.sites b)[n]? = some s) :
    s.blockId = b ∧ s.position = n ∧ s.method = b.method ∧ x.program.line? b.method s.index = some s.line ∧
      ∃ block, x.block? b = some block ∧ block.lines[n]? = some s.index := by
  cases found : x.block? b with
  | none => simp [sites, found] at atPosition
  | some block =>
    rw [faithful.getElem?_sites found] at atPosition
    obtain ⟨i, listed, made⟩ := Option.bind_eq_some_iff.mp atPosition
    obtain ⟨line, isLine, rfl⟩ := Option.map_eq_some_iff.mp made
    exact ⟨rfl, rfl, rfl, isLine, block, rfl, listed⟩

end Faithful

end SmaliTrace.Index
