import SmaliTrace.Proofs.BlockGraph.Simulation
import SmaliTrace.Proofs.Slice.Completeness

/-!
Definitions that reach a handler through an exception. An exception leaves a block from any of its lines,
but the edge to the handler leaves from the block as a whole, and a backward search goes back over all of
its lines. A definition is found behind the handler if the rest of the block leaves the register alone;
if it does not, the definition may be missed.
-/
namespace SmaliTrace.Slice
open SmaliTrace.Smali SmaliTrace.ClassFile SmaliTrace.BlockGraph

variable {m : Method} {g : BlockGraph.Graph} {flow : Flow} {r : Register} {d : Nat}

/-- The line neither defines the register nor fills the array that it holds. -/
def LeavesAlone (m : Method) (r : Register) (l : Nat) : Prop :=
  ∀ op, operationAt? m l = some op → Spares op r

/-- The lines after this one in its block leave the register alone. -/
def ClearAfter (m : Method) (g : BlockGraph.Graph) (r : Register) (l : Nat) : Prop :=
  ∀ block ∈ g.blocks, l ∈ block.lines → ∀ k ∈ block.lines, l < k → LeavesAlone m r k

/-- Control runs from the line `d` to another, and all lines on the way but `d` leave the register alone;
where an exception leaves a block on the way, so do the remaining lines of the block. -/
inductive Survives (m : Method) (g : BlockGraph.Graph) (r : Register) (d : Nat) : Nat → Prop
  | start : Survives m g r d d
  | flow {l t l' : Nat} (before : Survives m g r d l) (flows : Flows m l t) (first : FirstFrom m t l')
      (alone : LeavesAlone m r l') : Survives m g r d l'
  | raise {l t l' : Nat} (before : Survives m g r d l) (raises : Raises m l t) (first : FirstFrom m t l')
      (clear : ClearAfter m g r l) (alone : LeavesAlone m r l') : Survives m g r d l'

theorem leavesAlone_of_not_executable {l : Nat} (idle : executable m l = false) : LeavesAlone m r l := by
  intro op does
  rw [executable_eq, lineKind?_eq, does] at idle
  refine ⟨?_, ?_⟩
  · cases op <;> simp_all [Operation.kind, Kind.executable, Operation.result?]
  · rintro label rfl
    simp [Operation.kind, Kind.executable] at idle

/-! ### Going back over the lines of a block -/

theorem lt_of_getElem?_of_lt {lines : List Nat} (sorted : lines.Pairwise (· < ·)) {i j k l : Nat}
    (atI : lines[i]? = some k) (atJ : lines[j]? = some l) (before : i < j) : k < l := by
  obtain ⟨boundI, rfl⟩ := List.getElem?_eq_some_iff.mp atI
  obtain ⟨boundJ, rfl⟩ := List.getElem?_eq_some_iff.mp atJ
  exact List.pairwise_iff_getElem.mp sorted i j boundI boundJ before

section Blocks

variable {x : Index} {id : MethodId}

/-- The graph of a method of the index, with its flow. -/
structure Holds (x : Index) (id : MethodId) (m : Method) (g : BlockGraph.Graph) (flow : Flow) : Prop where
  faithful : x.Faithful
  isMethod : x.program.method? id = some m
  graph : x.graph? id = some g
  has : HasFlow m g flow

namespace Holds

variable (holds : Holds x id m g flow)
include holds

theorem block? {b : Nat} {block : Block} (found : g.blocks[b]? = some block) :
    x.block? ⟨id, b⟩ = some block := by
  simp [Index.block?, holds.graph, found]

/-- The site at a position does what the line there does. -/
theorem exists_site {b n l : Nat} {block : Block} (found : g.blocks[b]? = some block)
    (atLine : block.lines[n]? = some l) :
    ∃ s, (x.sites ⟨id, b⟩)[n]? = some s ∧ s.id = .body id l ∧ operationAt? m l = some s.operation := by
  have bound : l < m.lines.size :=
    lt_size_of_mem_part holds.has.live (List.mem_of_getElem? (holds.has.part_of_block found))
      (List.mem_of_getElem? atLine)
  have isLine : x.program.line? id l = some m.lines[l] := by
    simp [Program.line?, holds.isMethod, bound]
  refine ⟨⟨id, l, m.lines[l], b, n⟩, ?_, rfl, ?_⟩
  · rw [holds.faithful.getElem?_sites (holds.block? found), atLine]
    simp [isLine]
  · simp [operationAt?, bound, Site.operation]

/-- A path goes back over lines that leave the register alone. -/
theorem path_back {b n k : Nat} {block : Block} (found : g.blocks[b]? = some block)
    (bound : n ≤ block.lines.length) (below : k ≤ n)
    (alone : ∀ j l, k ≤ j → j < n → block.lines[j]? = some l → LeavesAlone m r l) :
    Path x ⟨r, ⟨id, b⟩, n⟩ ⟨r, ⟨id, b⟩, k⟩ := by
  induction n with
  | zero =>
    obtain rfl : k = 0 := by omega
    exact .refl
  | succ n ih =>
    by_cases reached : k = n + 1
    · subst reached
      exact .refl
    · have atLine : block.lines[n]? = some block.lines[n] := List.getElem?_eq_getElem bound
      obtain ⟨s, isSite, _, does⟩ := holds.exists_site found atLine
      have step : PathStep x ⟨r, ⟨id, b⟩, n + 1⟩ ⟨r, ⟨id, b⟩, n⟩ :=
        .pass isSite (alone n _ (by omega) (by omega) atLine _ does)
      refine .head step (ih (by omega) (by omega) fun j l above under => ?_)
      exact alone j l above (by omega)

/-- From the end of a block, a path goes back to right below a line if all lines after it leave the
register alone. -/
theorem path_from_end {b n l : Nat} {block : Block} (found : g.blocks[b]? = some block)
    (atLine : block.lines[n]? = some l) (alone : ∀ k ∈ block.lines, l < k → LeavesAlone m r k) :
    Path x ⟨r, ⟨id, b⟩, block.lines.length⟩ ⟨r, ⟨id, b⟩, n + 1⟩ := by
  have bound := (List.getElem?_eq_some_iff.mp atLine).1
  refine holds.path_back found (Nat.le_refl _) (by omega) fun j k above _ atJ => ?_
  exact alone k (List.mem_of_getElem? atJ) (lt_of_getElem?_of_lt (holds.has.sorted found) atLine atJ (by omega))

/-- From right above the first executable line of a block, a path goes back to the top. -/
theorem path_to_top {b n l : Nat} {block : Block} (found : g.blocks[b]? = some block)
    (atLine : block.lines[n]? = some l) (first : block.lines.find? (executable m) = some l) :
    Path x ⟨r, ⟨id, b⟩, n⟩ ⟨r, ⟨id, b⟩, 0⟩ := by
  have sorted := holds.has.sorted found
  have bound := (List.getElem?_eq_some_iff.mp atLine).1
  obtain ⟨_, _, quiet⟩ := (find?_executable_iff sorted).mp first
  refine holds.path_back found (by omega) (by omega) fun j k _ under atJ => ?_
  apply leavesAlone_of_not_executable
  exact quiet k (List.mem_of_getElem? atJ) (lt_of_getElem?_of_lt sorted atJ atLine under)

/-- Inside a block, a path goes back from an executable line to the one before it. -/
theorem path_to_previous {b n n' l l' : Nat} {block : Block} (found : g.blocks[b]? = some block)
    (atLine : block.lines[n]? = some l) (atLine' : block.lines[n']? = some l')
    (first : FirstFrom m (l + 1) l') : Path x ⟨r, ⟨id, b⟩, n'⟩ ⟨r, ⟨id, b⟩, n + 1⟩ := by
  have sorted := holds.has.sorted found
  have bound := (List.getElem?_eq_some_iff.mp atLine').1
  have after := first.after
  have order : n < n' := by
    by_contra late
    rcases Nat.lt_or_eq_of_le (Nat.le_of_not_lt late) with less | same
    · have := lt_of_getElem?_of_lt sorted atLine' atLine less
      omega
    · rw [same, atLine] at atLine'
      cases atLine'
      omega
  refine holds.path_back found (by omega) (by omega) fun j k above under atJ => ?_
  apply leavesAlone_of_not_executable
  have := lt_of_getElem?_of_lt sorted atLine atJ (by omega)
  exact first.quiet k (by omega) (lt_of_getElem?_of_lt sorted atJ atLine' under)

/-- An edge of the graph leads back from the top of its target to the end of its source. -/
theorem path_of_edge {b c : Nat} {block next : Block} (found : g.blocks[b]? = some block)
    (found' : g.blocks[c]? = some next) (edge : c ∈ block.succs) :
    PathStep x ⟨r, ⟨id, c⟩, 0⟩ ⟨r, ⟨id, b⟩, block.lines.length⟩ := by
  refine .pred (b := ⟨id, c⟩) (p := b) (holds.block? found') ?_ (holds.block? found)
  rw [holds.has.mem_preds_iff found']
  exact (holds.has.mem_succs_iff found).mp edge

theorem block_unique {b c l : Nat} {block next : Block} (found : g.blocks[b]? = some block)
    (inside : l ∈ block.lines) (found' : g.blocks[c]? = some next) (inside' : l ∈ next.lines) : b = c := by
  have here := holds.has.locate?_eq found inside
  rw [holds.has.locate?_eq found' inside'] at here
  exact (Prod.mk.inj (Option.some.inj here)).1.symm

/-- From right above the first executable line of a block, a path goes back along an edge to right below a
line, if all lines after that in its block leave the register alone. -/
theorem path_over_edge {b c n n' l l' : Nat} {block next : Block} (found : g.blocks[b]? = some block)
    (atLine : block.lines[n]? = some l) (alone : ∀ k ∈ block.lines, l < k → LeavesAlone m r k)
    (found' : g.blocks[c]? = some next) (atLine' : next.lines[n']? = some l')
    (arrives : next.lines.find? (executable m) = some l') (edge : c ∈ block.succs) :
    Path x ⟨r, ⟨id, c⟩, n'⟩ ⟨r, ⟨id, b⟩, n + 1⟩ :=
  ((holds.path_to_top found' atLine' arrives).tail (holds.path_of_edge found found' edge)).trans
    (holds.path_from_end found atLine alone)

/-- Where the value of a line survives, a path leads back to that line. -/
theorem path_of_survives {a k : Nat} {home : Block} (foundD : g.blocks[a]? = some home)
    (atD : home.lines[k]? = some d) {l : Nat} (survives : Survives m g r d l) {b n : Nat} {block : Block}
    (found : g.blocks[b]? = some block) (atLine : block.lines[n]? = some l) :
    Path x ⟨r, ⟨id, b⟩, n + 1⟩ ⟨r, ⟨id, a⟩, k + 1⟩ := by
  -- Each step of control is gone back: over the line reached, then up to right below the line before.
  have pass {b n l : Nat} {block : Block} (found : g.blocks[b]? = some block)
      (atLine : block.lines[n]? = some l) (alone : LeavesAlone m r l) :
      PathStep x ⟨r, ⟨id, b⟩, n + 1⟩ ⟨r, ⟨id, b⟩, n⟩ := by
    obtain ⟨s, isSite, _, does⟩ := holds.exists_site found atLine
    exact .pass isSite (alone _ does)
  induction survives generalizing b n block with
  | start =>
    obtain rfl := holds.block_unique foundD (List.mem_of_getElem? atD) found (List.mem_of_getElem? atLine)
    rw [foundD] at found
    cases found
    have sorted := holds.has.sorted foundD
    rcases Nat.lt_trichotomy k n with less | same | more
    · have := lt_of_getElem?_of_lt sorted atD atLine less
      omega
    · rw [same]
    · have := lt_of_getElem?_of_lt sorted atLine atD more
      omega
  | @flow l t l' before flows first alone ih =>
    refine .head (pass found atLine alone) ?_
    obtain ⟨c, origin, foundC, inside, leaves⟩ := holds.has.flow_cases flows first
    obtain ⟨j, atJ⟩ := List.getElem?_of_mem inside
    refine .trans ?_ (ih foundC atJ)
    rcases leaves with ⟨stays, next⟩ | ⟨quiet, e, target, foundE, edge, arrives⟩
    · obtain rfl := holds.block_unique foundC stays found (List.mem_of_getElem? atLine)
      rw [foundC] at found
      cases found
      exact holds.path_to_previous foundC atJ atLine next
    · have inside' := List.mem_of_find?_eq_some arrives
      obtain rfl := holds.block_unique foundE inside' found (List.mem_of_getElem? atLine)
      rw [foundE] at found
      cases found
      have clear := fun k member below => leavesAlone_of_not_executable (r := r) (quiet k member below)
      exact holds.path_over_edge foundC atJ clear foundE atLine arrives edge
  | @raise l t l' before raises first clear alone ih =>
    refine .head (pass found atLine alone) ?_
    obtain ⟨c, origin, foundC, inside, e, target, foundE, edge, arrives⟩ := holds.has.raise_cases raises first
    obtain ⟨j, atJ⟩ := List.getElem?_of_mem inside
    refine .trans ?_ (ih foundC atJ)
    have inside' := List.mem_of_find?_eq_some arrives
    obtain rfl := holds.block_unique foundE inside' found (List.mem_of_getElem? atLine)
    rw [foundE] at found
    cases found
    exact holds.path_over_edge foundC atJ (clear origin (Array.mem_of_getElem? foundC) inside) foundE atLine
      arrives edge

end Holds

end Blocks

/-! ### Handlers -/

/-- A register search comes to the place: a backward path leads there from a place that was asked for. -/
def State.Tracks (σ : State) (x : Index) (place : Place) : Prop := ∃ start, σ.Asked start ∧ Path x start place

theorem raises_of_covers (collected : collectFlow m = .ok flow) {range : TryRange} (isRange : range ∈ flow.tries)
    {handler l : Nat} (handles : handler ∈ range.handlers) (runs : executable m l = true)
    (covered : range.covers l = true) : Raises m l handler := by
  obtain ⟨c, directive⟩ := exists_directive collected isRange handles
  simp only [TryRange.covers, Bool.and_eq_true, decide_eq_true_eq] at covered
  exact ⟨runs, c, range.start, range.stop, directive, covered⟩

theorem lt_size_of_raises {l t : Nat} (raises : Raises m l t) : t < m.lines.size := by
  obtain ⟨_, _, _, _, ⟨_, _, _, _, label⟩, _⟩ := raises
  exact lt_size_of_labelAt label

/-- The line loads a constant into the register. -/
def Loads (m : Method) (r : Register) (d : Nat) : Prop :=
  ∃ op, operationAt? m d = some op ∧ op.kind = .const ∧ op.result? = some r

/-- An exception may leave a try range from the line and lead to the handler. -/
def Throws (m : Method) (g : BlockGraph.Graph) (l handler : Nat) : Prop :=
  executable m l = true ∧ ∃ range ∈ g.tries, range.covers l = true ∧ handler ∈ range.handlers

/-- A completed search that tracks a register at the top of the block of a handler finds every constant load
whose value is in the register where an exception leads to the handler, if the lines that are left of the
block there leave the register alone. -/
theorem backward_finds_load_at_handler (program : Program) (excluded : List String) (options : Options)
    (p : BackwardPattern) (bounded : 0 ≤ options.maxFuzzy) (i : Nat) (seed : LineId) (result : SearchResult)
    (isSeed : (backwardSeeds (Index.ofProgram program excluded).index p)[i]? = some seed)
    (found : (backward (Index.ofProgram program excluded).index options p).searches[i]? = some result)
    (completed : result.outcome = .completed) (id : MethodId) (m : Method) (g : BlockGraph.Graph)
    (isMethod : program.method? id = some m)
    (graph : (Index.ofProgram program excluded).index.graph? id = some g) (r : Register) (d l handler : Nat)
    (loads : Loads m r d) (throws : Throws m g l handler) (survives : Survives m g r d l)
    (clear : ClearAfter m g r l) (b position : Nat) (located : g.locate? handler = some (b, position))
    (tracked : (backwardState (Index.ofProgram program excluded).index options p i seed).Tracks
      (Index.ofProgram program excluded).index ⟨r, ⟨id, b⟩, 0⟩) :
    ∃ c ∈ result.constants, c.line = .body id d := by
  have faithful := Index.faithful_ofProgram program excluded
  obtain ⟨seed', _, _, isSeed', _, _, _, searching, empty, reported⟩ :=
    searching_of_completed faithful bounded found completed
  cases isSeed.symm.trans isSeed'
  obtain ⟨runs, range, isRange, covered, handles⟩ := throws
  obtain ⟨op, does, isConst, defines⟩ := loads
  -- The method has executable lines, so the graph is that of its flow.
  obtain ⟨m', isMethod', built⟩ := faithful id g graph
  rw [Index.program_ofProgram, isMethod] at isMethod'
  cases isMethod'
  obtain ⟨flow, has⟩ := exists_hasFlow built ⟨l, runs⟩
  have holds : Holds (Index.ofProgram program excluded).index id m g flow :=
    ⟨faithful, by rw [Index.program_ofProgram, isMethod], graph, has⟩
  have tries : g.tries = flow.tries := by rw [has.graph]; rfl
  have raises := raises_of_covers has.collected (tries ▸ isRange) handles runs covered
  -- The blocks of the handler, of the line that throws, and of the load.
  obtain ⟨b', target, foundB, inside, _⟩ := has.exists_block (lt_size_of_raises raises)
  rw [has.locate?_eq foundB inside] at located
  obtain rfl := (Prod.mk.inj (Option.some.inj located)).1
  obtain ⟨c, block, foundC, insideL, _⟩ := has.exists_block (lt_size_of_executable runs)
  have runsD : executable m d = true := executable_of_kind does (by rw [isConst]; rfl)
  obtain ⟨a, home, foundA, insideD, _⟩ := has.exists_block (lt_size_of_executable runsD)
  obtain ⟨n, atL⟩ := List.getElem?_of_mem insideL
  obtain ⟨k, atD⟩ := List.getElem?_of_mem insideD
  -- From the top of the handler over the edge to the throwing line, and from there to the load.
  have edge := has.mem_succs_of_raises raises foundC insideL foundB inside
  obtain ⟨start, asked, path⟩ := tracked
  have path' := ((path.tail (holds.path_of_edge foundC foundB edge)).trans (holds.path_from_end foundC atL
    (clear block (Array.mem_of_getElem? foundC) insideL))).trans
    (holds.path_of_survives foundA atD survives foundC atL)
  obtain ⟨s, isSite, isLine, does'⟩ := holds.exists_site foundA atD
  cases does.symm.trans does'
  have ended := Ends.intro isSite defines (by simp [isConst, originating])
  rw [isLine] at ended
  exact (reported _ (searching.keeps empty asked path' ended)).1

/-- A body that loads a register twice in a try range, with a call after each load, and passes it on in the
handler. -/
def loadTwice : Method where
  owner := "LMain;"
  name := "run"
  params := []
  result := "V"
  flags := [.static]
  lines := #[
    ⟨1, "", .label "start", ""⟩,
    ⟨2, "const-class", .constClass "v0" "LKey;", ""⟩,
    ⟨3, "invoke-static", .invoke [] ⟨"LSink;", "call", [], "V"⟩, ""⟩,
    ⟨4, "const-class", .constClass "v0" "LLock;", ""⟩,
    ⟨5, "invoke-static", .invoke [] ⟨"LSink;", "call", [], "V"⟩, ""⟩,
    ⟨6, "", .label "stop", ""⟩,
    ⟨7, ".catchall", .handler ⟨"", "start", "stop", "handler"⟩, ""⟩,
    ⟨8, "return-void", .returnVoid, ""⟩,
    ⟨9, "", .label "handler", ""⟩,
    ⟨10, "invoke-static", .invoke ["v0"] ⟨"LSink;", "take", ["LKey;"], "V"⟩, ""⟩,
    ⟨11, "return-void", .returnVoid, ""⟩]

/-- The program of that body. -/
def loadTwiceProgram : Program := Index.oneMethod loadTwice

/-- The graph of that body: the range is one block, with an edge to that of the handler. -/
def loadTwiceGraph : BlockGraph.Graph where
  blocks := #[
    { lines := [0, 1, 2, 3, 4, 5, 6], label := some 0, preds := [], succs := [2, 1], returns := false,
      throws := false, jumps := false, dead := false, isTry := true, isHandler := false },
    { lines := [7], label := some 2, preds := [0], succs := [], returns := true, throws := false,
      jumps := false, dead := false, isTry := false, isHandler := false },
    { lines := [8, 9, 10], label := some 1, preds := [0], succs := [], returns := true, throws := false,
      jumps := false, dead := false, isTry := false, isHandler := true }]
  tries := [{ start := 0, stop := 5, handlers := [8], types := ["*"] }]

/-- The index of that program. -/
def loadTwiceIndex : Index := .single loadTwice loadTwiceGraph [2, 4, 9]

theorem index_loadTwiceProgram : (Index.ofProgram loadTwiceProgram []).index = loadTwiceIndex :=
  Index.index_oneMethod (by decide) (by cbv) (by decide) rfl

theorem locate?_loadTwice : loadTwiceGraph.locate? 8 = some (2, 0) ∧ loadTwiceGraph.locate? 9 = some (2, 1) := by
  constructor <;> simp [BlockGraph.Graph.locate?, loadTwiceGraph, List.findIdx?_cons]

/-- The search from the handler completes, finds the second load only, and tracks the register at the top of
the handler. -/
theorem loadTwice_search :
    ∃ result : SearchResult, (backward (Index.ofProgram loadTwiceProgram []).index fewIterations sinkPattern).searches[0]? =
        some result ∧ result.outcome = .completed ∧
      result.constants.map Constant.line = [.body ⟨0, 0⟩ 3] ∧
      (backwardSeeds (Index.ofProgram loadTwiceProgram []).index sinkPattern)[0]? = some (LineId.body ⟨0, 0⟩ 9) ∧
      (backwardState (Index.ofProgram loadTwiceProgram []).index fewIterations sinkPattern 0
        (LineId.body ⟨0, 0⟩ 9)).Tracks (Index.ofProgram loadTwiceProgram []).index ⟨"v0", ⟨⟨0, 0⟩, 2⟩, 0⟩ := by
  have faithful := Index.faithful_ofProgram loadTwiceProgram []
  rw [index_loadTwiceProgram] at faithful ⊢
  have outcomes : (backward loadTwiceIndex fewIterations sinkPattern).searches.map (fun s =>
      (s.outcome, s.constants.map Constant.line)) = [(.completed, [.body ⟨0, 0⟩ 3])] := by cbv
  obtain ⟨result, only, same⟩ := List.map_eq_singleton_iff.mp outcomes
  obtain ⟨completed, constants⟩ := Prod.mk.inj same
  have found : (backward loadTwiceIndex fewIterations sinkPattern).searches[0]? = some result := by
    rw [only]
    rfl
  obtain ⟨seed, s, register, isSeed, isSite, tracked, asked, _⟩ :=
    searching_of_completed faithful (by decide) found completed
  have calls : (loadTwiceIndex.callSites.lines "take").toList = [LineId.body ⟨0, 0⟩ 9] :=
    (Index.lines_single "take").trans (by decide)
  rw [backwardSeeds_sinkPattern calls (by simpa using ⟨_, rfl, by decide⟩)] at isSeed ⊢
  refine ⟨result, found, completed, constants, rfl, ?_⟩
  cases isSeed
  cases (Index.site?_of_prepared rfl locate?_loadTwice.2 rfl).symm.trans isSite
  cases (seedRegister?_of_argument rfl (argument_of_static (by decide) rfl rfl)).symm.trans tracked
  have label : (loadTwiceIndex.sites ⟨⟨0, 0⟩, 2⟩)[0]? = some ⟨⟨0, 0⟩, 8, ⟨9, "", .label "handler", ""⟩, 2, 0⟩ := by
    rw [Index.sites_of_prepared rfl rfl]
    rfl
  exact ⟨_, asked, .single (.pass label ⟨by decide, by simp [Site.operation, CodeLine.operation]⟩)⟩

/-- The load before the first call is missed: an exception of the call leads to the handler with its value,
but the second load in the same block hides it. -/
theorem loadTwice_missed :
    0 ≤ fewIterations.maxFuzzy ∧ loadTwiceProgram.method? ⟨0, 0⟩ = some loadTwice ∧
      (Index.ofProgram loadTwiceProgram []).index.graph? ⟨0, 0⟩ = some loadTwiceGraph ∧
      Loads loadTwice "v0" 1 ∧ Throws loadTwice loadTwiceGraph 2 8 ∧ Step loadTwice 1 2 ∧
      loadTwiceGraph.locate? 8 = some (2, 0) ∧
      ∃ result, (backward (Index.ofProgram loadTwiceProgram []).index fewIterations sinkPattern).searches[0]? =
          some result ∧ result.outcome = .completed ∧
        (backwardState (Index.ofProgram loadTwiceProgram []).index fewIterations sinkPattern 0
          (.body ⟨0, 0⟩ 9)).Tracks (Index.ofProgram loadTwiceProgram []).index ⟨"v0", ⟨⟨0, 0⟩, 2⟩, 0⟩ ∧
        ¬ ∃ c ∈ result.constants, c.line = .body ⟨0, 0⟩ 1 := by
  obtain ⟨result, found, completed, constants, _, tracked⟩ := loadTwice_search
  have graph : (Index.ofProgram loadTwiceProgram []).index.graph? ⟨0, 0⟩ = some loadTwiceGraph := by
    rw [index_loadTwiceProgram]
    exact Index.graph?_of_prepared rfl
  have step : Step loadTwice 1 2 := by
    refine ⟨2, .inl (.next (by decide) rfl (by decide)), Nat.le_refl 2, by decide, fun k above below => ?_⟩
    omega
  refine ⟨by decide, rfl, graph, ⟨_, rfl, rfl, rfl⟩,
    ⟨by decide, _, List.mem_singleton.mpr rfl, by decide, by decide⟩,
    step, locate?_loadTwice.1, result, found, completed, tracked, ?_⟩
  rintro ⟨c, inside, same⟩
  have listed : c.line ∈ result.constants.map Constant.line := List.mem_map_of_mem inside
  rw [constants, same] at listed
  simp at listed

/-- The load before the second call is found: nothing in the rest of its block changes the register. -/
theorem loadTwice_found :
    0 ≤ fewIterations.maxFuzzy ∧ Loads loadTwice "v0" 3 ∧ Throws loadTwice loadTwiceGraph 4 8 ∧
      Survives loadTwice loadTwiceGraph "v0" 3 4 ∧ ClearAfter loadTwice loadTwiceGraph "v0" 4 ∧
      ∃ result, (backward (Index.ofProgram loadTwiceProgram []).index fewIterations sinkPattern).searches[0]? =
        some result ∧ result.outcome = .completed ∧ ∃ c ∈ result.constants, c.line = .body ⟨0, 0⟩ 3 := by
  obtain ⟨result, found, completed, _, isSeed, tracked⟩ := loadTwice_search
  have graph : (Index.ofProgram loadTwiceProgram []).index.graph? ⟨0, 0⟩ = some loadTwiceGraph := by
    rw [index_loadTwiceProgram]
    exact Index.graph?_of_prepared rfl
  have call : LeavesAlone loadTwice "v0" 4 := by
    intro op does
    cases does
    refine ⟨by decide, fun label fills => ?_⟩
    cases fills
  have loads : Loads loadTwice "v0" 3 := ⟨_, rfl, rfl, rfl⟩
  have throws : Throws loadTwice loadTwiceGraph 4 8 :=
    ⟨by decide, _, List.mem_singleton.mpr rfl, by decide, by decide⟩
  have survives : Survives loadTwice loadTwiceGraph "v0" 3 4 := by
    refine .flow .start (.next (by decide) rfl (by decide)) ⟨Nat.le_refl 4, by decide, ?_⟩ call
    intro k above below
    omega
  have quiet : ∀ block ∈ loadTwiceGraph.blocks, 4 ∈ block.lines → ∀ k ∈ block.lines, 4 < k →
      executable loadTwice k = false := by decide
  have clear : ClearAfter loadTwice loadTwiceGraph "v0" 4 := fun block inside here k member below =>
    leavesAlone_of_not_executable (quiet block inside here k member below)
  refine ⟨by decide, loads, throws, survives, clear, result, found, completed, ?_⟩
  exact backward_finds_load_at_handler loadTwiceProgram [] fewIterations sinkPattern (by decide) 0
    (.body ⟨0, 0⟩ 9) result isSeed found completed ⟨0, 0⟩ loadTwice loadTwiceGraph rfl graph "v0" 3 4 8
    loads throws survives clear 2 0 locate?_loadTwice.1 tracked

end SmaliTrace.Slice
