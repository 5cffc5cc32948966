import SmaliTrace.Proofs.Slice.ArrayWalk
import SmaliTrace.Proofs.Slice.FuzzyCeiling

/-!
Array mode in whole searches: which stores to an element get into the slice, and which do not.
-/
namespace SmaliTrace.Slice
open SmaliTrace.Smali SmaliTrace.ClassFile

variable {x : Context} {r : RegisterSearch} {c : Cursor} {σ τ : State} {v : Option Cursor}

/-- The walk of one item comes to the places that its steps lead to. -/
theorem exists_exec_of_stays {b : BlockId} {n : Nat} {place : Place}
    (path : Relation.ReflTransGen (Stays x.index) ⟨c.register, b, n⟩ place)
    (ran : exec (backwardLines x r c (linesBack x b ((n : Int) - 1))) σ = (.ok v, τ)) :
    place.block = b ∧ ∃ c' ρ, c'.register = place.register ∧
      exec (backwardLines x r c' (linesBack x b ((place.above : Int) - 1))) ρ = (.ok v, τ) := by
  induction path with
  | refl => exact ⟨rfl, c, σ, rfl, ran⟩
  | tail _ step ih =>
    obtain ⟨rfl, c₁, ρ, same, ran⟩ := ih
    cases step with
    | @pass _ _ n _ line spared =>
      rw [show ((n + 1 : Nat) : Int) - 1 = n by omega, linesBack_succ line] at ran
      obtain ⟨w, π, first, rest⟩ := exec_bind_eq_ok_iff.mp ran
      obtain ⟨c₂, rfl, same'⟩ := register_of_backwardLine (same ▸ spared) first
      exact ⟨rfl, c₂, π, same'.trans same, rest⟩
    | @through _ _ _ n _ line defines carries head =>
      rw [show ((n + 1 : Nat) : Int) - 1 = n by omega, linesBack_succ line] at ran
      obtain ⟨w, π, first, rest⟩ := exec_bind_eq_ok_iff.mp ran
      obtain ⟨c₂, rfl, head'⟩ := head_of_backwardLine (same ▸ defines) carries first
      exact ⟨rfl, c₂, π, Option.some.inj (head'.symm.trans head), rest⟩

/-- One of the items follows the register to the line and there reads it from an element of an array. -/
structure StartsArrayMode (x : Index) (items : List Item) (read : Site) (array : Register) : Prop where
  line : (x.sites read.blockId)[read.position]? = some read
  walked : ∃ q register position, .register q ∈ items ∧ read.operation = .arrayGet register array position ∧
    Relation.ReflTransGen (Stays x) q.place ⟨register, read.blockId, read.position + 1⟩

/-- Such an item starts array mode with the array. -/
theorem StartsArrayMode.exists_exec {items : List Item} {read : Site} {array : Register}
    (starts : StartsArrayMode x.index items read array) (backward : x.forward = false)
    (drained : Drained x items τ) :
    ∃ r c σ ρ, c.register = array ∧ Gains ρ τ ∧
      exec (arrayOrigin x r c read.blockId ((read.position : Int) - 1)) σ = (.ok (), ρ) := by
  obtain ⟨q, register, position, inside, reads, path⟩ := starts.walked
  obtain ⟨ρ₀, ρ₁, performs, -, gains, -⟩ := drained.ran _ inside
  simp only [Item.perform, searchRegister, backward, Bool.false_eq_true, if_false] at performs
  obtain ⟨v, ρ₂, walked, rest⟩ := exec_bind_eq_ok_iff.mp performs
  have after : Enlists ρ₂ ρ₁ := by
    refine Develops.enlists ?_ rest
    split
    · exact develops_blockTop ..
    · exact .pure _
  rw [linesBack_toNat] at walked
  obtain ⟨isBlock, c, π, tracks, walks⟩ := exists_exec_of_stays path walked
  dsimp only at isBlock tracks
  rw [show ((read.position + 1 : Nat) : Int) - 1 = read.position by omega, ← isBlock, linesBack_succ starts.line] at walks
  obtain ⟨w, π₁, first, others⟩ := exec_bind_eq_ok_iff.mp walks
  rw [backwardLine_eq_of_defines (by rw [reads, tracks]; rfl), backwardDefinition, reads] at first
  dsimp only at first
  obtain ⟨c', π₂, stepped, first⟩ := exec_bind_eq_ok_iff.mp first
  obtain ⟨_, π₃, origin, last⟩ := exec_bind_eq_ok_iff.mp first
  cases last
  cases others
  exact ⟨q, c', π₂, ρ₂, register_of_step stepped, after.toGains.trans gains, origin⟩

/-- The stores on the ways back from a read that starts array mode get into the slice of a completed search. -/
theorem mem_lines_of_startsArrayMode {index : Index} {options : Options} {p : BackwardPattern} {i : Nat} {seed : LineId}
    {result : SearchResult} (faithful : index.Faithful)
    (found : (backward index options p).searches[i]? = some result) (completed : result.outcome = .completed)
    (isSeed : (backwardSeeds index p)[i]? = some seed)
    {read store : Site} {array value target position : Register} {graph : BlockGraph.Graph}
    (starts : StartsArrayMode index (backwardItems index options p i seed) read array)
    (isGraph : index.graph? read.method = some graph) (deep : (graph.blocks.size : Int) ≤ options.arrayDepth)
    (line : (index.sites store.blockId)[store.position]? = some store)
    (stores : store.operation = .arrayPut value target position)
    (path : StorePath index ⟨array, read.blockId, read.position⟩ ⟨target, store.blockId, store.position + 1⟩) :
    store.id ∈ result.graph.lines := by
  obtain ⟨seed', σ, isSeed', -, -, -, -, drained, -⟩ := drained_of_completed found completed
  obtain rfl := Option.some.inj (isSeed'.symm.trans isSeed)
  obtain ⟨r, c, _, ρ, tracks, gains, origin⟩ := starts.exists_exec rfl drained
  obtain ⟨-, -, -, -, block, isBlock, -⟩ := faithful.site_of_getElem? starts.line
  obtain ⟨_, isGraph', atIndex⟩ := Option.bind_eq_some_iff.mp isBlock
  obtain rfl := Option.some.inj (isGraph.symm.trans isGraph')
  have here : read.blockId.index < graph.blocks.size := (Array.getElem?_eq_some_iff.mp atIndex).1
  have bound := (List.getElem?_eq_some_iff.mp starts.line).1
  obtain ⟨visited, scans⟩ := exists_scans_of_storePath ⟨array, read.blockId, read.position⟩ faithful isGraph deep here
    bound.le tracks origin path
  rw [graph_of_completed found completed isSeed]
  exact gains.lines.subset (scans.store line stores)

/-- A completed backward search that starts array mode at a read, in a body with no more blocks than array mode may
enter, puts every store to an element into the slice that a way back over copies leads to, if on that way no block is
entered that another way back over copies and rows enters with another register. -/
theorem backward_keeps_element_stores (program : Program) (excluded : List String) (options : Options)
    (p : BackwardPattern) (i : Nat) (result : SearchResult)
    (found : (backward (Index.ofProgram program excluded).index options p).searches[i]? = some result)
    (completed : result.outcome = .completed) :
    ∃ seed, (backwardSeeds (Index.ofProgram program excluded).index p)[i]? = some seed ∧
      ∀ (read : Site) (array : Register) (graph : BlockGraph.Graph),
        StartsArrayMode (Index.ofProgram program excluded).index
          (backwardItems (Index.ofProgram program excluded).index options p i seed) read array →
        (Index.ofProgram program excluded).index.graph? read.method = some graph →
        (graph.blocks.size : Int) ≤ options.arrayDepth →
        ∀ (store : Site) (value target position : Register),
          ((Index.ofProgram program excluded).index.sites store.blockId)[store.position]? = some store →
          store.operation = .arrayPut value target position →
          StorePath (Index.ofProgram program excluded).index ⟨array, read.blockId, read.position⟩
            ⟨target, store.blockId, store.position + 1⟩ →
          store.id ∈ result.graph.lines := by
  obtain ⟨seed, -, isSeed, -⟩ := drained_of_completed found completed
  refine ⟨seed, isSeed, fun read array graph starts isGraph deep store value target position line stores path => ?_⟩
  exact mem_lines_of_startsArrayMode (Index.faithful_ofProgram program excluded) found completed isSeed starts isGraph
    deep line stores path

/-- If no line gives the register from another one, ways back keep it. -/
theorem register_of_arrayPath {index : Index} {enters : BlockId → Prop}
    {gives : Operation → Register → Register → Prop} {start place : Place}
    (fixed : ∀ b, ∀ s ∈ index.sites b, ∀ source, ¬ gives s.operation start.register source)
    (path : Relation.ReflTransGen (ArrayStep index enters gives) start place) : place.register = start.register := by
  induction path with
  | refl => rfl
  | tail _ step ih =>
    cases step with
    | pass => exact ih
    | carry line given =>
      dsimp only at ih
      exact absurd given (ih ▸ fixed _ _ (List.mem_of_getElem? line) _)
    | pred => exact ih

/-- A completed search performed an item at every place that it asked for. -/
theorem exists_register_of_asked {index : Index} {options : Options} {p : BackwardPattern} {i : Nat} {seed : LineId}
    {result : SearchResult} {r : Register} {b : BlockId} {n : Int}
    (found : (backward index options p).searches[i]? = some result) (completed : result.outcome = .completed)
    (isSeed : (backwardSeeds index p)[i]? = some seed)
    (asked : (backwardState index options p i seed).work.done[ItemKey.register r b n]?.isSome) :
    ∃ q, .register q ∈ backwardItems index options p i seed ∧ q.place = ⟨r, b, (n + 1).toNat⟩ := by
  obtain ⟨seed', σ, isSeed', -, -, -, -, drained, -⟩ := drained_of_completed found completed
  obtain rfl := Option.some.inj (isSeed'.symm.trans isSeed)
  obtain ⟨item, inside, isKey⟩ := drained.asked _ (Std.HashMap.isSome_getElem?_iff_mem.mp asked)
  cases item with
  | content kind c => simp [Item.key, ContentSearch.key] at isKey
  | register q =>
    obtain ⟨rfl, rfl, rfl⟩ := ItemKey.register.inj isKey
    exact ⟨q, inside, rfl⟩

/-! ### A read in a loop -/

/-- A body that stores an element behind its read in a loop, and one before the loop. -/
def spin : Method where
  owner := "LMain;"
  name := "run"
  params := ["I"]
  result := "V"
  flags := [.static]
  lines := #[
    ⟨1, "const-class", .constClass "v2" "LKey;", ""⟩,
    ⟨2, "new-array", .newArray "v1" "p0" "[Ljava/lang/Class;", ""⟩,
    ⟨3, "aput-object", .arrayPut "v2" "v1" "p0", ""⟩,
    ⟨4, ":loop", .label ":loop", ""⟩,
    ⟨5, "aget-object", .arrayGet "v0" "v1" "p0", ""⟩,
    ⟨6, "aput-object", .arrayPut "v2" "v1" "p0", ""⟩,
    ⟨7, "if-nez", .ifZero "p0" ":loop", ""⟩,
    ⟨8, "invoke-static", .invoke ["v0"] ⟨"LSink;", "take", ["Ljava/lang/Class;"], "V"⟩, ""⟩,
    ⟨9, "return-void", .returnVoid, ""⟩]

def spinProgram : Program := Index.oneMethod spin

def spinGraph : BlockGraph.Graph where
  blocks := #[
    { lines := [0, 1, 2], label := some 0, preds := [], succs := [1], returns := false, throws := false,
      jumps := false, dead := false, isTry := false, isHandler := false },
    { lines := [3, 4, 5, 6], label := some 1, preds := [1, 0], succs := [2, 1], returns := false, throws := false,
      jumps := false, dead := false, isTry := false, isHandler := false },
    { lines := [7, 8], label := some 2, preds := [1], succs := [], returns := true, throws := false,
      jumps := false, dead := false, isTry := false, isHandler := false }]

def spinIndex : Index := .single spin spinGraph [7]

theorem index_spinProgram : (Index.ofProgram spinProgram []).index = spinIndex :=
  Index.index_oneMethod (by decide) (by cbv) (by decide) rfl

/-- The lines of a body from `first` on, as sites of one block. -/
def blockSites (m : Method) (block first count : Nat) : List Site :=
  ((m.lines.toList.zipIdx.drop first).take count).map fun entry =>
    ⟨⟨0, 0⟩, entry.2, entry.1, block, entry.2 - first⟩

theorem sites_spin_before : spinIndex.sites ⟨⟨0, 0⟩, 0⟩ = blockSites spin 0 0 3 :=
  (Index.sites_of_prepared rfl rfl).trans rfl

theorem sites_spin_loop : spinIndex.sites ⟨⟨0, 0⟩, 1⟩ = blockSites spin 1 3 4 :=
  (Index.sites_of_prepared rfl rfl).trans rfl

theorem graph?_spin : spinIndex.graph? ⟨0, 0⟩ = some spinGraph := Index.graph?_of_prepared rfl

theorem block?_spin (n : Nat) : spinIndex.block? ⟨⟨0, 0⟩, n⟩ = spinGraph.blocks[n]? := Index.block?_of_prepared rfl n

/-- Options under which array mode enters a few blocks. -/
def fewBlocks : Options := { ceilingOf 0 with arrayDepth := 4 }

/-- The run of the search from the sink of that body. -/
def spinRun : Except Fault Unit × State :=
  exec (do
    seedBackward (backwardContext spinIndex fewBlocks sinkPattern 0) sinkPattern (.body ⟨0, 0⟩ 7)
    drain (backwardContext spinIndex fewBlocks sinkPattern 0) fewBlocks.maxIterations.toNat)
    (startState (backwardContext spinIndex fewBlocks sinkPattern 0))

/-- The call that takes the element. -/
def spinSink : Site :=
  ⟨⟨0, 0⟩, 7, ⟨8, "invoke-static", .invoke ["v0"] ⟨"LSink;", "take", ["Ljava/lang/Class;"], "V"⟩, ""⟩, 2, 0⟩

theorem site?_spin : spinIndex.site? (LineId.body ⟨0, 0⟩ 7) = some spinSink :=
  Index.site?_of_prepared rfl (by simp [BlockGraph.Graph.locate?, spinGraph, List.findIdx?_cons]) rfl

/-- The store before the loop is in the slice, the one in the loop is not. -/
theorem spinRun_eq :
    (spinRun.1, spinRun.2.work.graph.lines, spinRun.2.work.done[ItemKey.register "v0" ⟨⟨0, 0⟩, 1⟩ 3]?.isSome) =
      (.ok (), [7, 4, 2, 1, 0].map (LineId.body ⟨0, 0⟩), true) := by
  have isSite : (backwardContext spinIndex fewBlocks sinkPattern 0).index.site? (LineId.body ⟨0, 0⟩ 7) = some spinSink :=
    site?_spin
  -- the seed is taken apart by lemmas: evaluation would compare its parameter type with the wide types by letters
  have tracked : seedRegister (backwardContext spinIndex fewBlocks sinkPattern 0) sinkPattern spinSink = pure "v0" :=
    seedRegister_of_argument rfl (argument_of_static (by decide) rfl rfl)
  simp only [spinRun, seedBackward, isSite, tracked]
  cbv

theorem backwardSeeds_spin : (backwardSeeds spinIndex sinkPattern)[0]? = some (LineId.body ⟨0, 0⟩ 7) := by
  have calls : (spinIndex.callSites.lines "take").toList = [LineId.body ⟨0, 0⟩ 7] :=
    (Index.lines_single "take").trans (by decide)
  rw [backwardSeeds_sinkPattern calls (by simpa using ⟨_, rfl, by decide⟩)]
  rfl

/-- The read in the loop. -/
def spinRead : Site := ⟨⟨0, 0⟩, 4, ⟨5, "aget-object", .arrayGet "v0" "v1" "p0", ""⟩, 1, 1⟩

theorem getElem?_spin (n : Nat) : (spinIndex.sites spinRead.blockId)[n]? = (blockSites spin 1 3 4)[n]? :=
  congrArg (·[n]?) sites_spin_loop

theorem exists_completed_spin :
    ∃ result : SearchResult, (backward spinIndex fewBlocks sinkPattern).searches[0]? = some result ∧
      result.outcome = .completed ∧ result.graph.lines = [7, 4, 2, 1, 0].map (LineId.body ⟨0, 0⟩) ∧
      StartsArrayMode spinIndex (backwardItems spinIndex fewBlocks sinkPattern 0 (.body ⟨0, 0⟩ 7)) spinRead "v1" := by
  obtain ⟨ended, rest⟩ := Prod.mk.inj spinRun_eq
  obtain ⟨lines, asked⟩ := Prod.mk.inj rest
  obtain ⟨result, found, completed, -⟩ := exists_completed_of_ran backwardSeeds_spin ended
  refine ⟨result, found, completed, (congrArg _ (graph_of_completed found completed backwardSeeds_spin)).trans lines, ?_⟩
  obtain ⟨q, inside, isPlace⟩ := exists_register_of_asked found completed backwardSeeds_spin asked
  refine ⟨getElem?_spin 1, q, "v0", "p0", inside, rfl, ?_⟩
  rw [isPlace]
  exact (Relation.ReflTransGen.single (.pass (n := 3) (getElem?_spin 3) (by decide))).tail
    (.pass (n := 2) (getElem?_spin 2) (by decide))

/-- No line of the body gives the array from another register. -/
theorem not_draws_spin (b : BlockId) (s : Site) (inside : s ∈ spinIndex.sites b) (source : Register) :
    ¬ Draws s.operation "v1" source := by
  have isLine : s.line ∈ spin.lines := by
    obtain ⟨n, atPosition⟩ := List.mem_iff_getElem?.mp inside
    have faithful := Index.faithful_ofProgram spinProgram []
    rw [index_spinProgram] at faithful
    obtain ⟨-, -, -, isLine, -⟩ := faithful.site_of_getElem? atPosition
    obtain ⟨method, isMethod, atIndex⟩ := Option.bind_eq_some_iff.mp isLine
    rw [Program.eq_of_method? isMethod rfl] at atIndex
    exact Array.mem_of_getElem? atIndex
  simp only [spin, List.mem_toArray, List.mem_cons, List.not_mem_nil, or_false] at isLine
  rcases isLine with same | same | same | same | same | same | same | same | same <;>
    simp [Draws, Site.operation, CodeLine.operation, same]

/-- The store before the loop is found: the way back to it leaves the block of the read at its top. -/
theorem spin_found :
    ∃ result, (backward (Index.ofProgram spinProgram []).index fewBlocks sinkPattern).searches[0]? = some result ∧
      result.outcome = .completed ∧ .body ⟨0, 0⟩ 2 ∈ result.graph.lines := by
  obtain ⟨result, found, completed, -, starts⟩ := exists_completed_spin
  rw [← index_spinProgram] at found
  obtain ⟨seed, isSeed, keeps⟩ := backward_keeps_element_stores spinProgram [] fewBlocks sinkPattern 0 result found
    completed
  refine ⟨result, found, completed, ?_⟩
  rw [index_spinProgram] at isSeed keeps
  cases backwardSeeds_spin.symm.trans isSeed
  have top : StorePath spinIndex ⟨"v1", spinRead.blockId, 1⟩ ⟨"v1", spinRead.blockId, 0⟩ :=
    .single ⟨.pass (n := 0) (getElem?_spin 0) (by decide), fun isTop => absurd isTop (by decide)⟩
  have left : StorePath spinIndex ⟨"v1", spinRead.blockId, 1⟩ ⟨"v1", ⟨⟨0, 0⟩, 0⟩, 3⟩ :=
    top.tail ⟨.pred (p := 0) (block?_spin 1) (by decide) (block?_spin 0) (by decide),
      fun _ _ path => register_of_arrayPath not_draws_spin path⟩
  exact keeps spinRead "v1" spinGraph starts graph?_spin (by decide)
    ⟨⟨0, 0⟩, 2, ⟨3, "aput-object", .arrayPut "v2" "v1" "p0", ""⟩, 0, 2⟩ "v2" "v1" "p0"
    (congrArg (·[2]?) sites_spin_before) rfl left

/-! ### Stores that are left out -/

/-- A completed search that starts array mode at a read, in a body with no more blocks than array mode may enter,
leaves out a store that a way back over copies leads to. -/
def MissesStore (x : Index) (options : Options) (p : BackwardPattern) : Prop :=
  ∃ (i : Nat) (seed : LineId) (result : SearchResult) (read : Site) (array : Register) (graph : BlockGraph.Graph)
    (store : Site) (value target position : Register),
    (backwardSeeds x p)[i]? = some seed ∧ (backward x options p).searches[i]? = some result ∧
      result.outcome = .completed ∧ StartsArrayMode x (backwardItems x options p i seed) read array ∧
      x.graph? read.method = some graph ∧ (graph.blocks.size : Int) ≤ options.arrayDepth ∧
      (x.sites store.blockId)[store.position]? = some store ∧ store.operation = .arrayPut value target position ∧
      Relation.ReflTransGen (ArrayStep x (fun _ => True) Moves) ⟨array, read.blockId, read.position⟩
        ⟨target, store.blockId, store.position + 1⟩ ∧
      store.id ∉ result.graph.lines

/-- A body that reads an element of one of two arrays, the second of which a store goes to. -/
def cross : Method where
  owner := "LMain;"
  name := "run"
  params := ["I"]
  result := "V"
  flags := [.static]
  lines := #[
    ⟨1, "const-class", .constClass "v2" "LKey;", ""⟩,
    ⟨2, "new-array", .newArray "v3" "p0" "[Ljava/lang/Class;", ""⟩,
    ⟨3, "new-array", .newArray "v4" "p0" "[Ljava/lang/Class;", ""⟩,
    ⟨4, "aput-object", .arrayPut "v2" "v4" "p0", ""⟩,
    ⟨5, "if-eqz", .ifZero "p0" ":other", ""⟩,
    ⟨6, "move-object", .move "v1" "v3", ""⟩,
    ⟨7, "goto", .goto ":join", ""⟩,
    ⟨8, ":other", .label ":other", ""⟩,
    ⟨9, "move-object", .move "v1" "v4", ""⟩,
    ⟨10, ":join", .label ":join", ""⟩,
    ⟨11, "aget-object", .arrayGet "v0" "v1" "p0", ""⟩,
    ⟨12, "invoke-static", .invoke ["v0"] ⟨"LSink;", "take", ["Ljava/lang/Class;"], "V"⟩, ""⟩,
    ⟨13, "return-void", .returnVoid, ""⟩]

def crossProgram : Program := Index.oneMethod cross

def crossGraph : BlockGraph.Graph where
  blocks := #[
    { lines := [0, 1, 2, 3, 4], label := some 0, preds := [], succs := [1, 2], returns := false, throws := false,
      jumps := false, dead := false, isTry := false, isHandler := false },
    { lines := [5, 6], label := some 1, preds := [0], succs := [3], returns := false, throws := false,
      jumps := true, dead := false, isTry := false, isHandler := false },
    { lines := [7, 8], label := some 3, preds := [0], succs := [3], returns := false, throws := false,
      jumps := false, dead := false, isTry := false, isHandler := false },
    { lines := [9, 10, 11, 12], label := some 2, preds := [1, 2], succs := [], returns := true, throws := false,
      jumps := false, dead := false, isTry := false, isHandler := false }]

def crossIndex : Index := .single cross crossGraph [11]

theorem index_crossProgram : (Index.ofProgram crossProgram []).index = crossIndex :=
  Index.index_oneMethod (by decide) (by cbv) (by decide) (by cbv)

theorem sites_cross_before : crossIndex.sites ⟨⟨0, 0⟩, 0⟩ = blockSites cross 0 0 5 :=
  (Index.sites_of_prepared rfl rfl).trans rfl

theorem sites_cross_second : crossIndex.sites ⟨⟨0, 0⟩, 2⟩ = blockSites cross 2 7 2 :=
  (Index.sites_of_prepared rfl rfl).trans rfl

theorem sites_cross_join : crossIndex.sites ⟨⟨0, 0⟩, 3⟩ = blockSites cross 3 9 4 :=
  (Index.sites_of_prepared rfl rfl).trans rfl

theorem graph?_cross : crossIndex.graph? ⟨0, 0⟩ = some crossGraph := Index.graph?_of_prepared rfl

theorem block?_cross (n : Nat) : crossIndex.block? ⟨⟨0, 0⟩, n⟩ = crossGraph.blocks[n]? := Index.block?_of_prepared rfl n

theorem backwardSeeds_cross : (backwardSeeds crossIndex sinkPattern)[0]? = some (LineId.body ⟨0, 0⟩ 11) := by
  have calls : (crossIndex.callSites.lines "take").toList = [LineId.body ⟨0, 0⟩ 11] :=
    (Index.lines_single "take").trans (by decide)
  rw [backwardSeeds_sinkPattern calls (by simpa using ⟨_, rfl, by decide⟩)]
  rfl

/-- The run of the search from the sink of that body. -/
def crossRun : Except Fault Unit × State :=
  exec (do
    seedBackward (backwardContext crossIndex fewBlocks sinkPattern 0) sinkPattern (.body ⟨0, 0⟩ 11)
    drain (backwardContext crossIndex fewBlocks sinkPattern 0) fewBlocks.maxIterations.toNat)
    (startState (backwardContext crossIndex fewBlocks sinkPattern 0))

/-- The call that takes the element. -/
def crossSink : Site :=
  ⟨⟨0, 0⟩, 11, ⟨12, "invoke-static", .invoke ["v0"] ⟨"LSink;", "take", ["Ljava/lang/Class;"], "V"⟩, ""⟩, 3, 2⟩

theorem site?_cross : crossIndex.site? (LineId.body ⟨0, 0⟩ 11) = some crossSink :=
  Index.site?_of_prepared rfl (by simp [BlockGraph.Graph.locate?, crossGraph, List.findIdx?_cons]) rfl

/-- The block before the two copies is entered with the first array, so the store is not in the slice. -/
theorem crossRun_eq :
    (crossRun.1, crossRun.2.work.graph.lines, crossRun.2.work.done[ItemKey.register "v0" ⟨⟨0, 0⟩, 3⟩ 1]?.isSome) =
      (.ok (), [11, 10, 5, 8, 1].map (LineId.body ⟨0, 0⟩), true) := by
  have isSite : (backwardContext crossIndex fewBlocks sinkPattern 0).index.site? (LineId.body ⟨0, 0⟩ 11) = some crossSink :=
    site?_cross
  have tracked : seedRegister (backwardContext crossIndex fewBlocks sinkPattern 0) sinkPattern crossSink = pure "v0" :=
    seedRegister_of_argument rfl (argument_of_static (by decide) rfl rfl)
  simp only [crossRun, seedBackward, isSite, tracked]
  cbv

/-- The read behind the two copies. -/
def crossRead : Site := ⟨⟨0, 0⟩, 10, ⟨11, "aget-object", .arrayGet "v0" "v1" "p0", ""⟩, 3, 1⟩

theorem exists_completed_cross :
    ∃ result : SearchResult, (backward crossIndex fewBlocks sinkPattern).searches[0]? = some result ∧
      result.outcome = .completed ∧ result.graph.lines = [11, 10, 5, 8, 1].map (LineId.body ⟨0, 0⟩) ∧
      StartsArrayMode crossIndex (backwardItems crossIndex fewBlocks sinkPattern 0 (.body ⟨0, 0⟩ 11)) crossRead
        "v1" := by
  obtain ⟨ended, rest⟩ := Prod.mk.inj crossRun_eq
  obtain ⟨lines, asked⟩ := Prod.mk.inj rest
  obtain ⟨result, found, completed, -⟩ := exists_completed_of_ran backwardSeeds_cross ended
  refine ⟨result, found, completed, (congrArg _ (graph_of_completed found completed backwardSeeds_cross)).trans lines, ?_⟩
  obtain ⟨q, inside, isPlace⟩ := exists_register_of_asked found completed backwardSeeds_cross asked
  exact ⟨congrArg (·[1]?) sites_cross_join, q, "v0", "p0", inside, rfl, isPlace ▸ .refl⟩

/-- Array mode misses a store behind its read in a loop, since it does not enter the block of the read again, and
one to the second of two arrays, since it enters a block with one register only. -/
theorem array_mode_misses_stores :
    MissesStore (Index.ofProgram spinProgram []).index fewBlocks sinkPattern ∧
      MissesStore (Index.ofProgram crossProgram []).index fewBlocks sinkPattern := by
  rw [index_spinProgram, index_crossProgram]
  constructor
  · obtain ⟨result, found, completed, lines, starts⟩ := exists_completed_spin
    have path : Relation.ReflTransGen (ArrayStep spinIndex (fun _ => True) Moves) ⟨"v1", spinRead.blockId, 1⟩
        ⟨"v1", spinRead.blockId, 3⟩ :=
      ((Relation.ReflTransGen.single (.pass (n := 0) (getElem?_spin 0) (by decide))).tail
        (.pred (p := 1) (block?_spin 1) (by decide) (block?_spin 1) trivial)).tail
        (.pass (n := 3) (getElem?_spin 3) (by decide))
    refine ⟨0, _, result, spinRead, "v1", spinGraph, ⟨⟨0, 0⟩, 5, ⟨6, "aput-object", .arrayPut "v2" "v1" "p0", ""⟩, 1, 2⟩,
      "v2", "v1", "p0", backwardSeeds_spin, found, completed, starts, graph?_spin, by decide,
      getElem?_spin 2, rfl, path, ?_⟩
    rw [lines]
    decide
  · obtain ⟨result, found, completed, lines, starts⟩ := exists_completed_cross
    have toCopy : Relation.ReflTransGen (ArrayStep crossIndex (fun _ => True) Moves) ⟨"v1", crossRead.blockId, 1⟩
        ⟨"v4", ⟨⟨0, 0⟩, 2⟩, 1⟩ :=
      ((Relation.ReflTransGen.single (.pass (n := 0) (congrArg (·[0]?) sites_cross_join) (by decide))).tail
        (.pred (p := 2) (block?_cross 3) (by decide) (block?_cross 2) trivial)).tail
        (.carry (n := 1) (congrArg (·[1]?) sites_cross_second) rfl)
    have path := ((toCopy.tail (.pass (n := 0) (congrArg (·[0]?) sites_cross_second) (by decide))).tail
        (.pred (p := 0) (block?_cross 2) (by decide) (block?_cross 0) trivial)).tail
        (.pass (n := 4) (congrArg (·[4]?) sites_cross_before) (by decide))
    refine ⟨0, _, result, crossRead, "v1", crossGraph, ⟨⟨0, 0⟩, 3, ⟨4, "aput-object", .arrayPut "v2" "v4" "p0", ""⟩, 0, 3⟩,
      "v2", "v4", "p0", backwardSeeds_cross, found, completed, starts, graph?_cross, by decide,
      congrArg (·[3]?) sites_cross_before, rfl, path, ?_⟩
    rw [lines]
    decide

end SmaliTrace.Slice
