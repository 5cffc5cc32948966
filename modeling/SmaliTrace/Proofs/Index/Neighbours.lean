import SmaliTrace.Proofs.BlockGraph.Departure
import SmaliTrace.Proofs.Index.Orderly

/-!
The executable lines before and after a line, in its block or in the only block next to it. A call and the line
that picks up its result find each other, unless the call ends a try block that more than one block follows.
-/
namespace SmaliTrace.Index
open SmaliTrace.ClassFile SmaliTrace.Smali

variable {x : Index} {s t : Site} {b : BlockId}

/-- The site is the last executable one of a try block that other blocks than that of `t` follow too. -/
structure PartedByTry (x : Index) (s t : Site) : Prop where
  last : ∀ after ∈ x.sitesAfter s, after.line.executable = false
  forks : ∃ block, x.block? s.blockId = some block ∧ block.isTry = true ∧ ∃ c ∈ block.succs, c ≠ t.block

theorem onlyNeighbour?_eq_some_iff {neighbours : BlockGraph.Block → List Nat} :
    x.onlyNeighbour? s neighbours = some b ↔
      ∃ block c, x.block? s.blockId = some block ∧ neighbours block = [c] ∧ b = ⟨s.method, c⟩ := by
  unfold onlyNeighbour?
  constructor
  · intro only
    split at only
    · next c isOnly =>
      obtain ⟨block, isBlock, single⟩ := Option.map_eq_some_iff.mp isOnly
      exact ⟨block, c, isBlock, single, (Option.some.inj only).symm⟩
    · simp at only
  · rintro ⟨block, c, isBlock, single, rfl⟩
    simp [isBlock, single]

theorem eq_singleton_of_nodup {l : List Nat} (distinct : l.Nodup) {c : Nat} (member : c ∈ l)
    (all : ∀ d ∈ l, d = c) : l = [c] := by
  have same : l = List.replicate l.length c := List.eq_replicate_iff.mpr ⟨rfl, all⟩
  have short : l.length ≤ 1 := by
    rw [same] at distinct
    exact List.nodup_replicate.mp distinct
  have some := List.length_pos_of_mem member
  rw [same, show l.length = 1 by omega]
  rfl

namespace Faithful

variable (faithful : x.Faithful)
include faithful

/-- The sites after a site are those that stand behind it in its block. -/
theorem sitesAfter_eq {before after : List Site} (split : x.sites b = before ++ s :: after) :
    s.blockId = b ∧ x.sitesAfter s = after := by
  have atPosition : (x.sites b)[before.length]? = some s := by simp [split]
  obtain ⟨sameBlock, position, -⟩ := faithful.site_of_getElem? atPosition
  refine ⟨sameBlock, ?_⟩
  rw [sitesAfter, sameBlock, split, position, List.drop_append, List.drop_eq_nil_of_le (Nat.le_succ _)]
  simp

theorem sites_split (inside : t ∈ x.sites t.blockId) : x.sites t.blockId =
    (x.sites t.blockId).take t.position ++ t :: (x.sites t.blockId).drop (t.position + 1) := by
  obtain ⟨_, _, _, stands⟩ := faithful.exists_stands inside
  obtain ⟨bound, here⟩ := List.getElem?_eq_some_iff.mp stands.atPosition
  calc x.sites t.blockId
      = (x.sites t.blockId).take t.position ++ (x.sites t.blockId).drop t.position :=
        (List.take_append_drop ..).symm
    _ = (x.sites t.blockId).take t.position ++ t :: (x.sites t.blockId).drop (t.position + 1) := by
        rw [List.drop_eq_getElem_cons bound, here]

/-- The executable line before a line in its own block has that line next. -/
theorem find?_sitesAfter (inside : t ∈ x.sites t.blockId) (runs : t.line.executable = true)
    (previous : (x.sitesBefore t).find? (fun u => u.line.executable) = some s) :
    (x.sitesAfter s).find? (fun u => u.line.executable) = some t := by
  obtain ⟨-, before, after, split, idle⟩ := List.find?_eq_some_iff_append.mp previous
  have front : (x.sites t.blockId).take t.position = after.reverse ++ s :: before.reverse := by
    have := congrArg List.reverse split
    simpa [sitesBefore] using this
  have whole : x.sites t.blockId =
      after.reverse ++ s :: (before.reverse ++ t :: (x.sites t.blockId).drop (t.position + 1)) := by
    have := faithful.sites_split inside
    rwa [front, List.append_assoc, List.cons_append] at this
  have quiet : before.reverse.find? (fun u => u.line.executable) = none := by simpa using idle
  rw [(faithful.sitesAfter_eq whole).2, List.find?_append, quiet, List.find?_cons, runs]
  rfl

/-- A line that nothing is executed before in its block is the first one to be executed there. -/
theorem find?_sites_of_idle (inside : t ∈ x.sites t.blockId) (runs : t.line.executable = true)
    (idle : (x.sitesBefore t).find? (fun u => u.line.executable) = none) :
    (x.sites t.blockId).find? (fun u => u.line.executable) = some t := by
  have quiet : ((x.sites t.blockId).take t.position).find? (fun u => u.line.executable) = none := by
    simpa [sitesBefore] using idle
  rw [faithful.sites_split inside, List.find?_append, quiet, List.find?_cons, runs]
  rfl

/-- The last executable line of a block has no executable line after it there. -/
theorem idle_of_reverse_find? (previous : (x.sites b).reverse.find? (fun u => u.line.executable) = some s) :
    s.blockId = b ∧ ∀ u ∈ x.sitesAfter s, u.line.executable = false := by
  obtain ⟨-, before, after, split, idle⟩ := List.find?_eq_some_iff_append.mp previous
  have whole : x.sites b = after.reverse ++ s :: before.reverse := by
    have := congrArg List.reverse split
    simpa using this
  obtain ⟨sameBlock, rest⟩ := faithful.sitesAfter_eq whole
  refine ⟨sameBlock, ?_⟩
  intro u member
  rw [rest] at member
  simpa using idle u (List.mem_reverse.mp member)

/-- A site with no executable line after it is the last executable line of its block. -/
theorem lastExecutable?_of_idle {m : Method} {block : BlockGraph.Block} (stands : x.Stands s m block)
    (runs : s.line.executable = true) (idle : ∀ u ∈ x.sitesAfter s, u.line.executable = false) :
    BlockGraph.lastExecutable? m block.lines = some s.index := by
  obtain ⟨g, flow, -, has, atIndex⟩ := stands.flow
  refine (BlockGraph.lastExecutable?_eq_some_iff (has.sorted atIndex)).mpr
    ⟨List.mem_of_getElem? stands.listed, stands.executable.trans runs, fun k member later => ?_⟩
  -- the line is a site of the block, and stands after this one
  obtain ⟨n, atN⟩ := List.getElem?_of_mem member
  obtain ⟨line, isLine⟩ := Option.isSome_iff_exists.mp (faithful.isSome_line? stands.isBlock member)
  have atPosition : (x.sites s.blockId)[n]? = some ⟨s.method, k, line, s.block, n⟩ := by
    rw [faithful.getElem?_sites stands.isBlock, atN]
    simp [Site.blockId, show x.program.line? s.method k = some line from isLine]
  obtain ⟨_, m', _, stands'⟩ := faithful.exists_stands (List.mem_of_getElem? atPosition)
  obtain rfl := Option.some.inj (stands.isMethod.symm.trans stands'.isMethod)
  have order : s.position < n := by
    obtain ⟨bound, here⟩ := List.getElem?_eq_some_iff.mp stands.listed
    obtain ⟨bound', there⟩ := List.getElem?_eq_some_iff.mp atN
    rcases Nat.lt_trichotomy s.position n with less | same | more
    · exact less
    · subst same
      omega
    · have := List.pairwise_iff_getElem.mp (has.sorted atIndex) _ _ bound' bound more
      omega
  have after : (⟨s.method, k, line, s.block, n⟩ : Site) ∈ x.sitesAfter s := by
    refine List.mem_of_getElem? (i := n - (s.position + 1)) ?_
    rw [sitesAfter, List.getElem?_drop, show s.position + 1 + (n - (s.position + 1)) = n by omega]
    exact atPosition
  exact stands'.executable.trans (idle _ after)

/-- Only the next block follows one that ends by a line that goes on, unless a try range covers a line of it. -/
theorem eq_succ_of_mem_succs {m : Method} {block : BlockGraph.Block} (stands : x.Stands s m block)
    (runs : s.line.executable = true) (goesOn : BlockGraph.GoesOn s.operation.kind)
    (idle : ∀ u ∈ x.sitesAfter s, u.line.executable = false) (plain : block.isTry = false) {c : Nat}
    (edge : c ∈ block.succs) : c = s.block + 1 := by
  obtain ⟨g, flow, -, has, atIndex⟩ := stands.flow
  have last := faithful.lastExecutable?_of_idle stands runs idle
  exact has.eq_succ_of_goesOn atIndex last stands.lineKind? goesOn plain edge

/-- A line that goes on and the line that finds it as the one before have each other, unless a try range parts
them. -/
theorem nextExecutable?_eq (inside : t ∈ x.sites b) (runs : t.line.executable = true)
    (previous : x.previousExecutable? t = some s) (goesOn : BlockGraph.GoesOn s.operation.kind) :
    (x.PartedByTry s t → x.nextExecutable? s = none) ∧ (¬ x.PartedByTry s t → x.nextExecutable? s = some t) := by
  obtain ⟨rfl, _, target, standsT⟩ := faithful.exists_stands inside
  cases before : (x.sitesBefore t).find? (fun u => u.line.executable) with
  | some u =>
    obtain rfl : u = s := by simpa [previousExecutable?, before] using previous
    have after := faithful.find?_sitesAfter inside runs before
    constructor
    · intro parted
      have := parted.last t (List.mem_of_find?_eq_some after)
      simp [runs] at this
    · intro _
      rw [nextExecutable?, after]
  | none =>
    simp only [previousExecutable?, before, Option.bind_eq_bind] at previous
    obtain ⟨c, only, previous⟩ := Option.bind_eq_some_iff.mp previous
    obtain ⟨_, q, isBlock, single, rfl⟩ := onlyNeighbour?_eq_some_iff.mp only
    obtain rfl := Option.some.inj (standsT.isBlock.symm.trans isBlock)
    obtain ⟨sameBlock, idle⟩ := faithful.idle_of_reverse_find? previous
    have runsS : s.line.executable = true := by simpa using List.find?_some previous
    obtain ⟨-, m, block, stands⟩ := faithful.exists_stands (List.mem_reverse.mp (List.mem_of_find?_eq_some previous))
    -- the block of `t` is among those that follow the block of `s`
    have edge : t.block ∈ block.succs := by
      obtain ⟨pred, isPred, follows⟩ := faithful.mem_succs_of_mem_preds standsT.isBlock (i := q) (by simp [single])
      have : x.block? s.blockId = some pred := sameBlock ▸ isPred
      rwa [Option.some.inj (stands.isBlock.symm.trans this)]
    have none : (x.sitesAfter s).find? (fun u => u.line.executable) = none := by simpa using idle
    constructor
    · rintro ⟨-, block', isBlock', -, d, follows, other⟩
      obtain rfl := Option.some.inj (stands.isBlock.symm.trans isBlock')
      rw [nextExecutable?, none]
      cases alone : x.onlyNeighbour? s (·.succs) with
      | none => rfl
      | some d' =>
        obtain ⟨_, e, isBlock'', single', -⟩ := onlyNeighbour?_eq_some_iff.mp alone
        obtain rfl := Option.some.inj (stands.isBlock.symm.trans isBlock'')
        rw [single', List.mem_singleton] at edge follows
        exact absurd (follows.trans edge.symm) other
    · intro whole
      have all : ∀ d ∈ block.succs, d = t.block := by
        intro d follows
        by_contra other
        by_cases isTry : block.isTry = true
        · exact whole ⟨idle, block, stands.isBlock, isTry, d, follows, other⟩
        · have next := fun e => faithful.eq_succ_of_mem_succs stands runsS goesOn idle (by simpa using isTry) (c := e)
          exact other ((next d follows).trans (next _ edge).symm)
      obtain ⟨g, flow, -, has, atIndex⟩ := stands.flow
      have distinct := (has.partitions.distinct block (Array.mem_of_getElem? atIndex)).1
      have succs : block.succs = [t.block] := eq_singleton_of_nodup distinct edge all
      have alone : x.onlyNeighbour? s (·.succs) = some ⟨s.method, t.block⟩ :=
        onlyNeighbour?_eq_some_iff.mpr ⟨block, t.block, stands.isBlock, succs, rfl⟩
      have sameMethod : s.method = t.method := congrArg BlockId.method sameBlock
      have first := faithful.find?_sites_of_idle inside runs before
      rw [nextExecutable?, none]
      simp only [alone, Option.bind_eq_bind, Option.bind_some, sameMethod]
      exact first

end Faithful

/-- A call and the line that picks up its result find each other: where the line leads back to the call, the call leads
on to the line, unless it ends a try block that another block follows too. In that case it leads nowhere. -/
theorem nextExecutable?_of_previousExecutable? (program : Program) (excluded : List String) (b : BlockId)
    (result call : Site) (inside : result ∈ (ofProgram program excluded).index.sites b)
    (picks : result.operation.kind = .moveResult)
    (previous : (ofProgram program excluded).index.previousExecutable? result = some call)
    (makes : call.operation.kind = .invoke ∨ call.operation.kind = .filledNewArray) :
    ((ofProgram program excluded).index.PartedByTry call result →
        (ofProgram program excluded).index.nextExecutable? call = none) ∧
      (¬ (ofProgram program excluded).index.PartedByTry call result →
        (ofProgram program excluded).index.nextExecutable? call = some result) := by
  have faithful := faithful_ofProgram program excluded
  have runs : result.line.executable = true := by
    have isKind : result.line.kind = .moveResult := picks
    rw [CodeLine.executable, isKind]
    rfl
  have goesOn : BlockGraph.GoesOn call.operation.kind := by
    rcases makes with isCall | isArray
    · rw [isCall]
      exact ⟨rfl, by decide, by decide⟩
    · rw [isArray]
      exact ⟨rfl, by decide, by decide⟩
  exact faithful.nextExecutable?_eq inside runs previous goesOn

/-- A body that calls a method in a try range, which a label names the handler of, and picks up the result behind the
directive. -/
def guardedCall (handler : String) : Method where
  owner := "LMain;"
  name := "run"
  params := []
  result := "V"
  flags := [.static]
  lines := #[
    ⟨1, "", .label "start", ""⟩,
    ⟨2, "invoke-static", .invoke [] ⟨"LKey;", "get", [], "I"⟩, ""⟩,
    ⟨3, "", .label "stop", ""⟩,
    ⟨4, ".catchall", .handler ⟨"", "start", "stop", handler⟩, ""⟩,
    ⟨5, "", .label "result", ""⟩,
    ⟨6, "move-result", .moveResult "v0", ""⟩,
    ⟨7, "return-void", .returnVoid, ""⟩,
    ⟨8, "", .label "handler", ""⟩,
    ⟨9, "return-void", .returnVoid, ""⟩]

/-- The program of that body. -/
def guardedCallProgram (handler : String) : Program := oneMethod (guardedCall handler)

/-- The line that calls, in the first block of that body. -/
def guardedCallSite : Site :=
  ⟨⟨0, 0⟩, 1, ⟨2, "invoke-static", .invoke [] ⟨"LKey;", "get", [], "I"⟩, ""⟩, 0, 1⟩

/-- The line that picks up the result, in the second block of that body. -/
def guardedResultSite : Site := ⟨⟨0, 0⟩, 5, ⟨6, "move-result", .moveResult "v0", ""⟩, 1, 1⟩

/-- The graph of that body with the handler behind the return. -/
def guardedCallGraph : BlockGraph.Graph where
  blocks := #[
    { lines := [0, 1, 2, 3], label := some 0, preds := [], succs := [2, 1], returns := false, throws := false,
      jumps := false, dead := false, isTry := true, isHandler := false },
    { lines := [4, 5, 6], label := some 2, preds := [0], succs := [], returns := true, throws := false,
      jumps := false, dead := false, isTry := false, isHandler := false },
    { lines := [7, 8], label := some 1, preds := [0], succs := [], returns := true, throws := false,
      jumps := false, dead := false, isTry := false, isHandler := true }]
  tries := [{ start := 0, stop := 2, handlers := [7], types := ["*"] }]

/-- The graph of that body with the handler where the result is picked up. -/
def selfHandledGraph : BlockGraph.Graph where
  blocks := #[
    { lines := [0, 1, 2, 3], label := some 0, preds := [], succs := [1], returns := false, throws := false,
      jumps := false, dead := false, isTry := true, isHandler := false },
    { lines := [4, 5, 6, 7, 8], label := some 1, preds := [0], succs := [], returns := true, throws := false,
      jumps := false, dead := true, isTry := false, isHandler := true }]
  tries := [{ start := 0, stop := 2, handlers := [4], types := ["*"] }]

/-- The index of the program of that body. -/
def guardedCallIndex (handler : String) (g : BlockGraph.Graph) : Index := .single (guardedCall handler) g [1]

theorem index_guardedCall : (ofProgram (guardedCallProgram "handler") []).index =
    guardedCallIndex "handler" guardedCallGraph :=
  index_oneMethod (by decide) (by cbv) (by decide) rfl

theorem index_selfHandled : (ofProgram (guardedCallProgram "result") []).index =
    guardedCallIndex "result" selfHandledGraph :=
  index_oneMethod (by decide) (by cbv) (by decide) rfl

/-- The call ends a try range with a handler of its own, so it does not find the line that finds it. -/
theorem guardedCall_parted :
    guardedResultSite ∈ (ofProgram (guardedCallProgram "handler") []).index.sites ⟨⟨0, 0⟩, 1⟩ ∧
      guardedResultSite.operation.kind = .moveResult ∧ guardedCallSite.operation.kind = .invoke ∧
      (ofProgram (guardedCallProgram "handler") []).index.previousExecutable? guardedResultSite =
        some guardedCallSite ∧
      (ofProgram (guardedCallProgram "handler") []).index.nextExecutable? guardedCallSite ≠ some guardedResultSite := by
  rw [index_guardedCall]
  have place : ((guardedCallIndex "handler" guardedCallGraph).sites ⟨⟨0, 0⟩, 1⟩)[1]? = some guardedResultSite := by cbv
  have next : (guardedCallIndex "handler" guardedCallGraph).nextExecutable? guardedCallSite = none := by cbv
  refine ⟨List.mem_of_getElem? place, rfl, rfl, by cbv, ?_⟩
  rw [next]
  simp

/-- With the handler where the result is picked up, the call finds that line across the end of its try range. -/
theorem guardedCall_whole :
    guardedResultSite ∈ (ofProgram (guardedCallProgram "result") []).index.sites ⟨⟨0, 0⟩, 1⟩ ∧
      guardedResultSite.operation.kind = .moveResult ∧ guardedCallSite.operation.kind = .invoke ∧
      (ofProgram (guardedCallProgram "result") []).index.previousExecutable? guardedResultSite =
        some guardedCallSite ∧
      ¬ (ofProgram (guardedCallProgram "result") []).index.PartedByTry guardedCallSite guardedResultSite ∧
      (ofProgram (guardedCallProgram "result") []).index.nextExecutable? guardedCallSite = some guardedResultSite := by
  have place : ((guardedCallIndex "result" selfHandledGraph).sites ⟨⟨0, 0⟩, 1⟩)[1]? = some guardedResultSite := by cbv
  have inside : guardedResultSite ∈ (ofProgram (guardedCallProgram "result") []).index.sites ⟨⟨0, 0⟩, 1⟩ := by
    rw [index_selfHandled]
    exact List.mem_of_getElem? place
  have previous : (ofProgram (guardedCallProgram "result") []).index.previousExecutable? guardedResultSite =
      some guardedCallSite := by
    rw [index_selfHandled]
    cbv
  have block : (guardedCallIndex "result" selfHandledGraph).block? guardedCallSite.blockId =
      some selfHandledGraph.blocks[0] := by cbv
  have whole : ¬ (ofProgram (guardedCallProgram "result") []).index.PartedByTry guardedCallSite guardedResultSite := by
    rintro ⟨-, block', isBlock, -, c, follows, other⟩
    rw [index_selfHandled, block] at isBlock
    cases isBlock
    exact other (List.mem_singleton.mp follows)
  refine ⟨inside, rfl, rfl, previous, whole, ?_⟩
  exact (nextExecutable?_of_previousExecutable? (guardedCallProgram "result") [] _ _ _ inside rfl previous
    (.inl rfl)).2 whole

end SmaliTrace.Index
