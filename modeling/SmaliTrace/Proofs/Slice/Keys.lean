import SmaliTrace.Proofs.BlockGraph.Simulation
import SmaliTrace.Proofs.Index.Sites
import SmaliTrace.Slice.Run

/-!
The keys that searches of a program can ask for: its registers at the positions of its blocks, the fields that
its lines name, and its methods. They are finitely many, and what the lines of the program hand on is among
them.
-/
namespace SmaliTrace
open SmaliTrace.Smali SmaliTrace.ClassFile

/-! ### Registers of a line -/

namespace Smali

theorem register_mem_of_mem_assign {types : List String} {registers : List Register} {index : Nat}
    {arguments : List Argument} {a : Argument} (assigned : assign index types registers = some arguments)
    (inside : a ∈ arguments) : a.register ∈ registers := by
  induction types generalizing registers index arguments with
  | nil =>
    cases assigned
    simp at inside
  | cons type types ih =>
    cases registers with
    | nil => simp [assign] at assigned
    | cons r rest =>
      obtain ⟨others, found, rfl⟩ := Option.map_eq_some_iff.mp assigned
      rcases List.mem_cons.mp inside with rfl | inside
      · simp
      · exact List.mem_cons_of_mem r (List.mem_of_mem_drop (ih found inside))

/-- The arguments of a call are in registers that the line names. -/
theorem Instruction.register_mem_of_arguments {i : Instruction} {arguments : List Argument} {a : Argument}
    (found : i.arguments = .ok arguments) (inside : a ∈ arguments) : a.register ∈ i.operation.registers := by
  unfold Instruction.arguments at found
  split at found
  · next registers method isInvoke =>
    rw [isInvoke]
    dsimp only at found
    split at found
    · cases assigned : assign 0 method.params registers with
      | none => simp [assigned] at found
      | some made =>
        simp only [assigned, Option.map_some, Option.getD_some, Except.ok.injEq] at found
        subst found
        exact register_mem_of_mem_assign assigned inside
    · split at found
      · simp at found
      · next receiver rest =>
        cases assigned : assign 0 method.params rest with
        | none => simp [assigned] at found
        | some made =>
          simp only [assigned, Option.map_some, Option.getD_some, Except.ok.injEq] at found
          subst found
          rcases List.mem_cons.mp inside with rfl | inside
          · simp [Operation.registers]
          · exact List.mem_cons_of_mem receiver (register_mem_of_mem_assign assigned inside)
  · simp at found

theorem Instruction.argument_mem {i : Instruction} {index : Int} {r : Register}
    (found : i.argument index = .ok r) : r ∈ i.operation.registers := by
  unfold Instruction.argument at found
  cases made : i.arguments with
  | error e => simp [made, bind, Except.bind] at found
  | ok arguments =>
    simp only [made, bind, Except.bind] at found
    split at found
    · next a isArgument =>
      cases found
      exact register_mem_of_arguments made (List.mem_of_find?_eq_some isArgument)
    · simp at found

theorem Operation.mem_registers_of_result? {op : Operation} {r : Register} (found : op.result? = some r) :
    r ∈ op.registers := by
  cases op <;> simp_all [Operation.result?, Operation.registers]

end Smali

/-- The registers that hold the receiver and the parameters on entry. -/
def ClassFile.Method.paramRegisters (m : Method) : List Register :=
  (-1 :: (List.range m.params.length).map Nat.cast).filterMap fun index => (m.paramRegister index).toOption

theorem ClassFile.Method.paramRegister_mem {m : Method} {index : Int} {r : Register}
    (found : m.paramRegister index = .ok r) : r ∈ m.paramRegisters := by
  refine List.mem_filterMap.mpr ⟨index, ?_, by simp [found, Except.toOption]⟩
  by_cases receiver : index = -1
  · simp [receiver]
  · have bounds : 0 ≤ index ∧ index < m.params.length := by
      simp only [Method.paramRegister, receiver, if_false] at found
      split at found
      · simp at found
      · omega
    refine List.mem_cons_of_mem _ (List.mem_map.mpr ⟨index.toNat, ?_, ?_⟩)
    · simp
      omega
    · exact Int.toNat_of_nonneg bounds.1

/-! ### Blocks -/

namespace Index

variable {x : Index} {s : Site} {b : BlockId}

/-- The blocks of the analyzed methods. -/
def blocks (x : Index) : List BlockId :=
  x.program.methods.flatMap fun m =>
    (List.range (((x.graph? m).map fun g => g.blocks.size).getD 0)).map (⟨m, ·⟩)

/-- The lines of all blocks. -/
def allSites (x : Index) : List Site := x.blocks.flatMap x.sites

/-- The registers that a line names or that hold a parameter. -/
def registers (x : Index) : List Register :=
  x.allSites.flatMap (fun s => s.operation.registers) ++
    x.program.methods.flatMap fun m => ((x.program.method? m).map Method.paramRegisters).getD []

/-- The positions that a search in the block can have: those of its lines, before the first and behind the
last. -/
def positions (x : Index) (b : BlockId) : List Int :=
  (List.range (((x.block? b).map fun block => block.lines.length).getD 0 + 2)).map fun (n : Nat) => (n : Int) - 1

/-- The names of the fields that lines read or write. -/
def fieldNames (x : Index) : List String :=
  x.allSites.filterMap fun s => s.operation.field?.map fun field =>
    (x.program.fieldTarget field).1 ++ "->" ++ (x.program.fieldTarget field).2

/-- The names of the methods. -/
def methodNames (x : Index) : List String :=
  x.program.methods.filterMap fun m => (x.program.method? m).map fun method =>
    method.owner ++ "->" ++ method.identifier

open Slice (ItemKey) in
/-- The keys that searches can ask for. -/
def searchKeys (x : Index) : List ItemKey :=
  (x.registers.flatMap fun r => x.blocks.flatMap fun b => (x.positions b).map fun i => .register r b i) ++
    (x.fieldNames.flatMap (fun name => [.content .field name, .content .array name]) ++
      x.methodNames.map (.content .result))

theorem mem_searchKeys_register {r : Register} {i : Int} :
    Slice.ItemKey.register r b i ∈ x.searchKeys ↔ r ∈ x.registers ∧ b ∈ x.blocks ∧ i ∈ x.positions b := by
  simp [searchKeys]

theorem mem_searchKeys_field {name : String} (known : name ∈ x.fieldNames) :
    .content .field name ∈ x.searchKeys ∧ .content .array name ∈ x.searchKeys := by
  simp [searchKeys, known]

theorem mem_searchKeys_result {name : String} (known : name ∈ x.methodNames) :
    .content .result name ∈ x.searchKeys := by
  simp [searchKeys, known]

theorem mem_methods_of_method? {p : Program} {id : MethodId} {m : Method} (found : p.method? id = some m) :
    id ∈ p.methods := by
  obtain ⟨cls, isClass, isMethod⟩ := Option.bind_eq_some_iff.mp found
  have bound := (Array.getElem?_eq_some_iff.mp isClass).1
  have bound' := (Array.getElem?_eq_some_iff.mp isMethod).1
  refine List.mem_flatMap.mpr ⟨id.cls, List.mem_range.mpr bound, ?_⟩
  simp only [Program.methodsOf, isClass, List.mem_map, List.mem_range]
  exact ⟨id.index, bound', rfl⟩

theorem mem_methodNames {id : MethodId} {m : Method} (found : x.program.method? id = some m) :
    m.owner ++ "->" ++ m.identifier ∈ x.methodNames :=
  List.mem_filterMap.mpr ⟨id, mem_methods_of_method? found, by simp [found]⟩

theorem mem_registers_of_param {id : MethodId} {m : Method} {index : Int} {r : Register}
    (found : x.program.method? id = some m) (parameter : m.paramRegister index = .ok r) : r ∈ x.registers := by
  refine List.mem_append_right _ (List.mem_flatMap.mpr ⟨id, mem_methods_of_method? found, ?_⟩)
  simpa [found] using Method.paramRegister_mem parameter

theorem mem_registers_of_site {r : Register} (inside : s ∈ x.allSites) (named : r ∈ s.operation.registers) :
    r ∈ x.registers :=
  List.mem_append_left _ (List.mem_flatMap.mpr ⟨s, inside, named⟩)

theorem mem_fieldNames {field : FieldRef} (inside : s ∈ x.allSites) (named : s.operation.field? = some field) :
    (x.program.fieldTarget field).1 ++ "->" ++ (x.program.fieldTarget field).2 ∈ x.fieldNames :=
  List.mem_filterMap.mpr ⟨s, inside, by simp [named]⟩

/-! ### Sites -/

/-- A line of a block names the block, and has a position inside it. -/
theorem site_of_mem_sites (inside : s ∈ x.sites b) :
    s.blockId = b ∧ ∃ block, x.block? b = some block ∧ s.position < block.lines.length := by
  unfold sites at inside
  split at inside
  · simp at inside
  · next block isBlock =>
    obtain ⟨⟨i, position⟩, listed, made⟩ := List.mem_filterMap.mp inside
    obtain ⟨line, _, rfl⟩ := Option.map_eq_some_iff.mp made
    have bound := List.snd_lt_of_mem_zipIdx listed
    exact ⟨rfl, block, isBlock, by simpa using bound⟩

theorem mem_sites_of_site? {line : LineId} (found : x.site? line = some s) :
    s ∈ x.sites s.blockId ∧ s.id = line := by
  unfold site? at found
  split at found
  · next m i =>
    obtain ⟨⟨b, position⟩, located, found⟩ := Option.bind_eq_some_iff.mp found
    obtain ⟨code, isLine, made⟩ := Option.bind_eq_some_iff.mp found
    cases made
    obtain ⟨g, graph, located⟩ := Option.bind_eq_some_iff.mp located
    obtain ⟨⟨n, position'⟩, located, made⟩ := Option.bind_eq_some_iff.mp located
    cases made
    obtain ⟨n', first, located⟩ := Option.bind_eq_some_iff.mp located
    obtain ⟨block, atN, made⟩ := Option.bind_eq_some_iff.mp located
    cases made
    obtain ⟨bound, holds, _⟩ := Array.findIdx?_eq_some_iff_getElem.mp first
    have same := (Array.getElem?_eq_some_iff.mp atN).2
    have listed : i ∈ block.lines := by simpa [same] using holds
    have isBlock : x.block? ⟨m, n⟩ = some block := by simp [block?, graph, atN]
    refine ⟨?_, rfl⟩
    simp only [Site.blockId, sites, isBlock]
    refine List.mem_filterMap.mpr ⟨(i, block.lines.idxOf i), ?_, by simp [isLine]⟩
    rw [List.mem_zipIdx_iff_getElem?]
    exact List.getElem?_idxOf listed
  · simp at found

theorem positions_of_block {block : BlockGraph.Block} (found : x.block? b = some block) {i : Int} :
    i ∈ x.positions b ↔ -1 ≤ i ∧ i ≤ block.lines.length := by
  simp only [positions, found, Option.map_some, Option.getD_some, List.mem_map, List.mem_range]
  constructor
  · rintro ⟨n, bound, rfl⟩
    omega
  · rintro ⟨low, high⟩
    exact ⟨(i + 1).toNat, by omega, by omega⟩

/-- The places around a line are positions of its block. -/
theorem mem_positions_of_site (inside : s ∈ x.sites b) {i : Int} (low : (s.position : Int) - 1 ≤ i)
    (high : i ≤ (s.position : Int) + 1) : i ∈ x.positions s.blockId := by
  obtain ⟨rfl, block, found, bound⟩ := site_of_mem_sites inside
  exact (positions_of_block found).mpr ⟨by omega, by omega⟩

/-- A register of a line can be asked for around a line. -/
theorem mem_searchKeys_of_site {r : Register} (known : r ∈ x.registers) (inside : s ∈ x.allSites)
    {i : Int} (low : (s.position : Int) - 1 ≤ i) (high : i ≤ (s.position : Int) + 1) :
    .register r s.blockId i ∈ x.searchKeys := by
  obtain ⟨b, isBlock, inside⟩ := List.mem_flatMap.mp inside
  have same := (site_of_mem_sites inside).1
  refine mem_searchKeys_register.mpr ⟨known, same ▸ isBlock, mem_positions_of_site inside low high⟩

namespace Faithful

variable (faithful : x.Faithful)
include faithful

theorem mem_blocks_of_lt {m : MethodId} {g : BlockGraph.Graph} {n : Nat} (graph : x.graph? m = some g)
    (bound : n < g.blocks.size) : ⟨m, n⟩ ∈ x.blocks := by
  obtain ⟨method, isMethod, _⟩ := faithful m g graph
  refine List.mem_flatMap.mpr ⟨m, mem_methods_of_method? isMethod, ?_⟩
  simpa [graph] using bound

theorem mem_blocks_of_block? {block : BlockGraph.Block} (found : x.block? b = some block) : b ∈ x.blocks := by
  obtain ⟨g, graph, atIndex⟩ := Option.bind_eq_some_iff.mp found
  exact faithful.mem_blocks_of_lt graph (Array.getElem?_eq_some_iff.mp atIndex).1

theorem mem_allSites_of_mem_sites (inside : s ∈ x.sites b) : s ∈ x.allSites := by
  obtain ⟨_, block, found, _⟩ := site_of_mem_sites inside
  exact List.mem_flatMap.mpr ⟨b, faithful.mem_blocks_of_block? found, inside⟩

theorem mem_allSites_of_site? {line : LineId} (found : x.site? line = some s) : s ∈ x.allSites :=
  faithful.mem_allSites_of_mem_sites (mem_sites_of_site? found).1

theorem mem_allSites_of_sitesOf {lines : List LineId} (inside : s ∈ x.sitesOf lines) : s ∈ x.allSites := by
  obtain ⟨line, _, found⟩ := List.mem_filterMap.mp inside
  exact faithful.mem_allSites_of_site? found

theorem mem_allSites_of_definition? {d : Site} {r : Register} (found : x.definition? s r = some d) :
    d ∈ x.allSites := by
  have inside := List.mem_of_find?_eq_some found
  exact faithful.mem_allSites_of_mem_sites (List.mem_of_mem_take (List.mem_reverse.mp inside))

theorem mem_allSites_of_nextExecutable? {t : Site} (found : x.nextExecutable? s = some t) : t ∈ x.allSites := by
  unfold nextExecutable? at found
  split at found
  · next t' here =>
    cases found
    exact faithful.mem_allSites_of_mem_sites (List.mem_of_mem_drop (List.mem_of_find?_eq_some here))
  · obtain ⟨b, _, there⟩ := Option.bind_eq_some_iff.mp found
    exact faithful.mem_allSites_of_mem_sites (List.mem_of_find?_eq_some there)

theorem mem_allSites_of_previousExecutable? {t : Site} (found : x.previousExecutable? s = some t) :
    t ∈ x.allSites := by
  unfold previousExecutable? at found
  split at found
  · next t' here =>
    cases found
    have inside := List.mem_reverse.mp (List.mem_of_find?_eq_some here)
    exact faithful.mem_allSites_of_mem_sites (List.mem_of_mem_take inside)
  · obtain ⟨b, _, there⟩ := Option.bind_eq_some_iff.mp found
    exact faithful.mem_allSites_of_mem_sites (List.mem_reverse.mp (List.mem_of_find?_eq_some there))

open Slice in
/-- The line that picks up a result, and the register it defines. -/
theorem mem_of_pickUp? {next : Site} {d : Register} (found : pickUp? x s = some (next, d)) :
    next ∈ x.allSites ∧ d ∈ x.registers := by
  obtain ⟨t, isNext, made⟩ := Option.bind_eq_some_iff.mp found
  have isSite := faithful.mem_allSites_of_nextExecutable? isNext
  split at made
  · next isResult =>
    cases made
    exact ⟨isSite, mem_registers_of_site isSite (by simp [isResult, Operation.registers])⟩
  · simp at made

theorem mem_searchKeys_of_start {m : MethodId} {r : Register} (known : r ∈ x.registers)
    (body : x.hasBody m = true) : .register r ⟨m, 0⟩ 0 ∈ x.searchKeys := by
  unfold hasBody at body
  split at body
  · next g graph =>
    have bound : 0 < g.blocks.size := by
      rw [Bool.not_eq_true', Array.isEmpty_eq_false_iff] at body
      exact Array.size_pos_iff.mpr body
    have isBlock : x.block? ⟨m, 0⟩ = some g.blocks[0] := by simp [block?, graph, bound]
    exact mem_searchKeys_register.mpr ⟨known, faithful.mem_blocks_of_lt graph bound,
      (positions_of_block isBlock).mpr ⟨by omega, by omega⟩⟩
  · simp at body

open Slice in
/-- The neighbours of a block are blocks. -/
theorem mem_blocks_of_neighbours {context : Context} (isIndex : context.index = x) {n : Nat}
    {side : BlockGraph.Block → List Nat} (isSide : side = (·.preds) ∨ side = (·.succs))
    (inside : n ∈ neighbours context b side) : ∃ block, x.block? ⟨b.method, n⟩ = some block := by
  unfold neighbours at inside
  rw [isIndex] at inside
  cases found : x.block? b with
  | none => simp [found] at inside
  | some block =>
    obtain ⟨m, g, flow, _, graph, has, atIndex⟩ := faithful.exists_hasFlow found
    have listed : n ∈ side block := by simpa [found] using inside
    have bound : n < g.blocks.size := by
      rcases isSide with rfl | rfl
      · exact (has.lt_size_of_mem_edges ((has.mem_preds_iff atIndex).mp listed)).1
      · exact (has.lt_size_of_mem_edges ((has.mem_succs_iff atIndex).mp listed)).2
    exact ⟨g.blocks[n], by simp [block?, graph, bound]⟩

end Faithful

end Index

end SmaliTrace
