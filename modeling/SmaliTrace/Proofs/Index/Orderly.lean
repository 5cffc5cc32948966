import SmaliTrace.Proofs.BlockGraph.NoDeadCode
import SmaliTrace.Proofs.ClassFile.Descriptors
import SmaliTrace.Proofs.Index.Scan
import SmaliTrace.Proofs.Slice.Keys

/-!
Orderly programs: calls have the registers that they need and are static when their methods are, results are picked
up right behind what makes them, and there is no dead code. What a search relies on then holds of the index, as far
as blocks do not mix up the ways through a body and lists of calls do not mix up overloads.
-/
namespace SmaliTrace.Index
open SmaliTrace.ClassFile SmaliTrace.Smali

variable {x : Index} {s : Site} {b : BlockId}

/-- The code of the analyzed methods is as a verifier would have it. -/
structure Orderly (x : Index) : Prop where
  /-- Every call has enough registers for its parameters. -/
  enough : ∀ id m, x.program.method? id = some m → (x.graph? id).isSome → ∀ line ∈ m.lines, line.kind = .invoke →
    ∃ arguments, line.instruction.arguments = .ok arguments
  /-- The calls of a method are static if the method is. -/
  agree : ∀ id m, x.program.method? id = some m → ∀ s ∈ x.sitesOf (x.callSitesOf id),
    s.operation.method?.map MethodRef.paramText = some m.paramText → s.instruction.isStaticInvoke = m.isStatic
  /-- The executable line before a result is picked up makes it. -/
  picked : ∀ id m, x.program.method? id = some m → (x.graph? id).isSome → ∀ l,
    BlockGraph.lineKind? m l = some .moveResult → ∃ p, BlockGraph.LastBefore m l p ∧
      (BlockGraph.lineKind? m p = some .invoke ∨ BlockGraph.lineKind? m p = some .filledNewArray)
  alive : ∀ id m, x.program.method? id = some m → (x.graph? id).isSome → BlockGraph.NoDeadCode m

/-- The index keeps the ways through a body apart, and the calls of methods that share a name. -/
structure Untangled (x : Index) : Prop where
  /-- No block that returns is followed by another one, unless it is a try block right behind a handler. -/
  returns : ∀ b block, x.block? b = some block → (∃ s ∈ x.sites b, s.operation.kind = .ret) →
    block.succs = [] ∨ (block.isTry = true ∧ ∃ p before, block.preds = [p] ∧
      x.block? ⟨b.method, p⟩ = some before ∧ before.isHandler = true)
  /-- A block that begins by picking up a result follows one block only. -/
  picks : ∀ b block, x.block? b = some block → ∀ s ∈ x.sites b, s.operation.kind = .moveResult →
    (∀ t ∈ x.sitesBefore s, t.line.executable = false) → ∃ p, block.preds = [p]
  /-- The calls of an overload that are listed for a method are static if that is. -/
  overloads : ∀ id m, x.program.method? id = some m → ∀ s ∈ x.sitesOf (x.callSitesOf id),
    s.operation.method?.map MethodRef.paramText ≠ some m.paramText → s.instruction.isStaticInvoke = m.isStatic

/-! ### Lines of blocks -/

theorem mem_take_iff_lt {l : List Nat} (sorted : l.Pairwise (· < ·)) {n a : Nat} (atN : l[n]? = some a) {k : Nat} :
    k ∈ l.take n ↔ k ∈ l ∧ k < a := by
  obtain ⟨bound, rfl⟩ := List.getElem?_eq_some_iff.mp atN
  have order := List.pairwise_iff_getElem.mp sorted
  rw [List.mem_take_iff_getElem, List.mem_iff_getElem]
  constructor
  · rintro ⟨i, less, rfl⟩
    exact ⟨⟨i, by omega, rfl⟩, order i n _ bound (by omega)⟩
  · rintro ⟨⟨i, inside, rfl⟩, less⟩
    refine ⟨i, ?_, rfl⟩
    by_contra beyond
    rcases Nat.lt_or_eq_of_le (show n ≤ i by omega) with later | rfl
    · have := order n i bound inside later
      omega
    · omega

/-- What a line of a block is in the body. -/
structure Stands (x : Index) (s : Site) (m : Method) (block : BlockGraph.Block) : Prop where
  isMethod : x.program.method? s.method = some m
  isBlock : x.block? s.blockId = some block
  atPosition : (x.sites s.blockId)[s.position]? = some s
  listed : block.lines[s.position]? = some s.index
  isLine : m.lines[s.index]? = some s.line
  flow : ∃ g flow, x.graph? s.method = some g ∧ BlockGraph.HasFlow m g flow ∧ g.blocks[s.block]? = some block

theorem Stands.analyzed {m : Method} {block : BlockGraph.Block} (stands : x.Stands s m block) :
    (x.graph? s.method).isSome := by
  obtain ⟨g, _, isGraph, -⟩ := stands.flow
  simp [isGraph]

theorem Stands.lineKind? {m : Method} {block : BlockGraph.Block} (stands : x.Stands s m block) :
    BlockGraph.lineKind? m s.index = some s.operation.kind := by
  simp [BlockGraph.lineKind?, stands.isLine]
  rfl

theorem Stands.executable {m : Method} {block : BlockGraph.Block} (stands : x.Stands s m block) :
    BlockGraph.executable m s.index = s.line.executable := by
  simp [BlockGraph.executable, stands.isLine]

/-- The lines before a line of a block stand before it in the body. -/
theorem Stands.index_lt {m m' : Method} {block block' : BlockGraph.Block} {t : Site}
    (stands : x.Stands s m block) (stands' : x.Stands t m' block') (same : t.blockId = s.blockId)
    (before : t.position < s.position) : t.index ∈ block.lines ∧ t.index < s.index := by
  obtain rfl : block = block' := by
    have := stands'.isBlock
    rw [same, stands.isBlock] at this
    exact Option.some.inj this
  obtain ⟨g, flow, isGraph, has, atIndex⟩ := stands.flow
  refine ⟨List.mem_of_getElem? stands'.listed, ?_⟩
  obtain ⟨bound, here⟩ := List.getElem?_eq_some_iff.mp stands.listed
  obtain ⟨bound', there⟩ := List.getElem?_eq_some_iff.mp stands'.listed
  have := List.pairwise_iff_getElem.mp (has.sorted atIndex) _ _ bound' bound before
  rwa [here, there] at this

namespace Faithful

variable (faithful : x.Faithful)
include faithful

theorem exists_stands (inside : s ∈ x.sites b) : s.blockId = b ∧ ∃ m block, x.Stands s m block := by
  obtain ⟨n, atPosition⟩ := List.mem_iff_getElem?.mp inside
  obtain ⟨rfl, rfl, -, isLine, block, isBlock, listed⟩ := faithful.site_of_getElem? atPosition
  obtain ⟨m, g, flow, isMethod, graph, has, atIndex⟩ := faithful.exists_hasFlow isBlock
  have isMethod' : x.program.method? s.method = some m := isMethod
  have graph' : x.graph? s.method = some g := graph
  have isLine' : x.program.line? s.method s.index = some s.line := isLine
  refine ⟨rfl, m, block, isMethod', isBlock, atPosition, listed, ?_, g, flow, graph', has, atIndex⟩
  simpa [Program.line?, isMethod'] using isLine'

/-- The sites of a block are its lines. -/
theorem map_index_sites {block : BlockGraph.Block} (isBlock : x.block? b = some block) :
    (x.sites b).map Site.index = block.lines := by
  refine List.ext_getElem? fun n => ?_
  rw [List.getElem?_map]
  cases atPosition : (x.sites b)[n]? with
  | some s =>
    obtain ⟨-, -, -, -, block', isBlock', listed⟩ := faithful.site_of_getElem? atPosition
    obtain rfl := Option.some.inj (isBlock.symm.trans isBlock')
    exact listed.symm
  | none =>
    have beyond := List.getElem?_eq_none_iff.mp atPosition
    rw [faithful.length_sites isBlock] at beyond
    exact (List.getElem?_eq_none beyond).symm

/-- A block comes after its predecessors. -/
theorem mem_succs_of_mem_preds {block : BlockGraph.Block} (isBlock : x.block? b = some block) {i : Nat}
    (isPred : i ∈ block.preds) : ∃ pred, x.block? ⟨b.method, i⟩ = some pred ∧ b.index ∈ pred.succs := by
  obtain ⟨m, g, flow, -, graph, has, atIndex⟩ := faithful.exists_hasFlow isBlock
  have edge := (has.mem_preds_iff atIndex).mp isPred
  have found := Array.getElem?_eq_getElem (has.lt_size_of_mem_edges edge).1
  exact ⟨_, by simp [block?, graph, found], (has.mem_succs_iff found).mpr edge⟩

/-- Among lines of one body, the first executable one is found by its line. -/
theorem find?_executable {id : MethodId} {m : Method} (isMethod : x.program.method? id = some m) {sites : List Site}
    (inside : ∀ t ∈ sites, t ∈ x.sites t.blockId ∧ t.method = id) :
    (sites.find? fun t => t.line.executable).map Site.index =
      (sites.map Site.index).find? (BlockGraph.executable m) := by
  induction sites with
  | nil => rfl
  | cons t rest ih =>
    obtain ⟨here, rfl⟩ := inside t List.mem_cons_self
    obtain ⟨-, m', _, stands⟩ := faithful.exists_stands here
    obtain rfl := Option.some.inj (isMethod.symm.trans stands.isMethod)
    rw [List.map_cons, List.find?_cons, List.find?_cons, stands.executable]
    cases t.line.executable with
    | true => rfl
    | false => exact ih fun other member => inside other (List.mem_cons_of_mem _ member)

/-- The calls of a method are calls, with the parameters of the method unless it has none. -/
theorem call_of_mem_callSitesOf {id : MethodId} {m : Method} (isMethod : x.program.method? id = some m)
    (isSite : s ∈ x.sitesOf (x.callSitesOf id)) :
    s ∈ x.sites s.blockId ∧ ∃ registers ref, s.operation = .invoke registers ref ∧
      (m.paramText = "" ∨ ref.paramText = m.paramText) := by
  obtain ⟨line, called, found⟩ := List.mem_filterMap.mp isSite
  obtain ⟨inside, rfl⟩ := mem_sites_of_site? found
  refine ⟨inside, ?_⟩
  obtain ⟨-, m', _, stands⟩ := faithful.exists_stands inside
  rw [callSitesOf, isMethod, List.mem_eraseDups] at called
  obtain ⟨owner, -, called⟩ := List.mem_flatMap.mp called
  have matched := (List.mem_filter.mp called).2
  cases callee : x.callee? s.id with
  | none => simp [callee] at matched
  | some ref =>
    rw [callee] at matched
    simp only [refMatches, Bool.and_eq_true, Bool.or_eq_true, decide_eq_true_eq] at matched
    simp only [Site.id, callee?, Program.line?, stands.isMethod, Option.bind_eq_bind, Option.bind_some,
      stands.isLine] at callee
    rw [Site.operation]
    cases does : s.line.operation <;> simp_all [Operation.method?]

end Faithful

namespace Orderly

variable (faithful : x.Faithful) (orderly : x.Orderly)
include faithful orderly

/-- A call has an argument for the receiver and for every parameter of its method. -/
theorem exists_arguments (inside : s ∈ x.sites b) (calls : s.operation.kind = .invoke) :
    ∃ arguments, s.instruction.arguments = .ok arguments := by
  obtain ⟨-, m, block, stands⟩ := faithful.exists_stands inside
  exact orderly.enough _ m stands.isMethod stands.analyzed _ (Array.mem_of_getElem? stands.isLine) calls

/-- No return stands in its block before an executable line. -/
theorem kind_ne_ret (inside : s ∈ x.sites b) (runs : s.line.executable = true) {t : Site} (above : t ∈ x.sites b)
    (before : t.position < s.position) : t.operation.kind ≠ .ret := by
  obtain ⟨rfl, m, block, stands⟩ := faithful.exists_stands inside
  obtain ⟨same, m', block', stands'⟩ := faithful.exists_stands above
  obtain ⟨inside', less⟩ := stands.index_lt stands' same before
  obtain ⟨g, flow, isGraph, has, atIndex⟩ := stands.flow
  have executed := stands.executable.trans runs
  have reached := orderly.alive _ m stands.isMethod stands.analyzed _ executed
  have isMethod : m = m' := by
    have := stands'.isMethod
    rw [show t.method = s.method from congrArg BlockId.method same, stands.isMethod] at this
    exact Option.some.inj this
  subst isMethod
  have := has.kind_ne_ret_of_reached reached atIndex (List.mem_of_getElem? stands.listed) inside' less
  rw [stands'.lineKind?] at this
  exact fun isReturn => this (by rw [isReturn])

/-- The executable line before one that picks up a result is found, and is a call or makes an array. -/
theorem exists_producer (untangled : x.Untangled) (inside : s ∈ x.sites b) (picks : s.operation.kind = .moveResult) :
    ∃ t, x.previousExecutable? s = some t ∧ t ∈ x.sites t.blockId ∧
      (t.operation.kind = .invoke ∨ t.operation.kind = .filledNewArray) := by
  obtain ⟨rfl, m, block, stands⟩ := faithful.exists_stands inside
  obtain ⟨g, flow, isGraph, has, atIndex⟩ := stands.flow
  have isKind := stands.lineKind?
  rw [picks] at isKind
  have runs := BlockGraph.executable_of_lineKind? isKind rfl
  obtain ⟨p, last, makes⟩ := orderly.picked _ m stands.isMethod stands.analyzed _ isKind
  have sorted := has.sorted atIndex
  -- whichever list the line is found in, it is the line that makes the result
  have found {sites : List Site} (lines : ∀ t ∈ sites, t ∈ x.sites t.blockId ∧ t.method = s.method)
      (first : (sites.map Site.index).find? (BlockGraph.executable m) = some p) :
      ∃ t, sites.find? (fun t => t.line.executable) = some t ∧ t ∈ x.sites t.blockId ∧
        (t.operation.kind = .invoke ∨ t.operation.kind = .filledNewArray) := by
    rw [← faithful.find?_executable stands.isMethod lines] at first
    obtain ⟨t, isFirst, rfl⟩ := Option.map_eq_some_iff.mp first
    obtain ⟨inside', sameMethod⟩ := lines t (List.mem_of_find?_eq_some isFirst)
    obtain ⟨-, m', _, stands'⟩ := faithful.exists_stands inside'
    have isMethod := stands'.isMethod
    rw [sameMethod, stands.isMethod] at isMethod
    obtain rfl := Option.some.inj isMethod
    rw [stands'.lineKind?] at makes
    exact ⟨t, isFirst, inside', makes.imp Option.some.inj Option.some.inj⟩
  have ofBlock {c : BlockId} (same : c.method = s.method) {sites : List Site} (part : ∀ t ∈ sites, t ∈ x.sites c) :
      ∀ t ∈ sites, t ∈ x.sites t.blockId ∧ t.method = s.method := by
    intro t member
    obtain ⟨rfl, -⟩ := faithful.exists_stands (part t member)
    exact ⟨part t member, same⟩
  have before : ∀ t ∈ x.sitesBefore s, t ∈ x.sites t.blockId ∧ t.method = s.method :=
    ofBlock (c := s.blockId) rfl fun t member => List.mem_of_mem_take (List.mem_reverse.mp member)
  have indices : (x.sitesBefore s).map Site.index = (block.lines.take s.position).reverse := by
    rw [sitesBefore, List.map_reverse, List.map_take, faithful.map_index_sites stands.isBlock]
  have falls : ∃ kind, BlockGraph.lineKind? m p = some kind ∧ kind ≠ .ret ∧ kind ≠ .throw ∧ kind ≠ .goto := by
    rcases makes with isCall | isArray
    · exact ⟨_, isCall, by decide⟩
    · exact ⟨_, isArray, by decide⟩
  obtain ⟨kind, isKind', falls⟩ := falls
  rcases has.previous_cases last runs isKind' falls atIndex (List.mem_of_getElem? stands.listed) with
    here | ⟨empty, a, block', found', edge, there, quiet⟩
  · obtain ⟨t, isFirst, rest⟩ := found before (by
      rw [indices, BlockGraph.find?_reverse_eq_some_iff (sorted.sublist (List.take_sublist ..))]
      refine ⟨(mem_take_iff_lt sorted stands.listed).mpr ⟨here, last.before⟩, last.executed, fun k member above => ?_⟩
      exact last.quiet k above ((mem_take_iff_lt sorted stands.listed).mp member).2)
    exact ⟨t, by rw [previousExecutable?, isFirst], rest⟩
  · have idle : ∀ t ∈ x.sitesBefore s, t.line.executable = false := by
      intro t member
      obtain ⟨-, m', _, stands'⟩ := faithful.exists_stands (before t member).1
      have isMethod := stands'.isMethod
      rw [(before t member).2, stands.isMethod] at isMethod
      obtain rfl := Option.some.inj isMethod
      have listed : t.index ∈ (x.sitesBefore s).map Site.index := List.mem_map_of_mem member
      rw [indices, List.mem_reverse, mem_take_iff_lt sorted stands.listed] at listed
      exact stands'.executable.symm.trans (empty _ listed.1 listed.2)
    obtain ⟨q, only⟩ := untangled.picks _ block stands.isBlock s inside picks idle
    obtain rfl : a = q := by simpa [only] using edge
    have isBlock' : x.block? ⟨s.method, a⟩ = some block' := by simp [block?, isGraph, found']
    have above : ∀ t ∈ (x.sites ⟨s.method, a⟩).reverse, t ∈ x.sites t.blockId ∧ t.method = s.method :=
      ofBlock (c := ⟨s.method, a⟩) rfl fun t => List.mem_reverse.mp
    obtain ⟨t, isFirst, rest⟩ := found above (by
      rw [List.map_reverse, faithful.map_index_sites isBlock',
        BlockGraph.find?_reverse_eq_some_iff (has.sorted found')]
      exact ⟨there, last.executed, quiet⟩)
    have none : (x.sitesBefore s).find? (fun t => t.line.executable) = none := by simpa using idle
    refine ⟨t, ?_, rest⟩
    rw [previousExecutable?, none]
    simpa [onlyNeighbour?, stands.isBlock, only] using isFirst

/-- Every call of a method has an argument for its receiver and for every parameter. -/
theorem exists_argument_of_callSite (untangled : x.Untangled) (described : x.program.Described) {id : MethodId}
    {m : Method} (isMethod : x.program.method? id = some m) (isSite : s ∈ x.sitesOf (x.callSitesOf id)) {index : Int}
    (isParam : IsParam m.isStatic m.params index) : ∃ r, s.instruction.argument index = .ok r := by
  have static : s.instruction.isStaticInvoke = m.isStatic := by
    by_cases same : s.operation.method?.map MethodRef.paramText = some m.paramText
    · exact orderly.agree id m isMethod s isSite same
    · exact untangled.overloads id m isMethod s isSite same
  obtain ⟨inside, registers, ref, calls, matched⟩ := faithful.call_of_mem_callSitesOf isMethod isSite
  obtain ⟨arguments, made⟩ := orderly.exists_arguments faithful inside (by rw [calls]; rfl)
  refine exists_argument calls made ?_
  rcases isParam with ⟨rfl, instance_⟩ | ⟨low, high⟩
  · exact .inl ⟨rfl, static.trans instance_⟩
  · -- the method has parameters, so the descriptors were compared
    have ref' := (described.method? isMethod).ref
    have some : m.paramText ≠ "" := by
      intro empty
      rw [MethodRef.Described, show m.ref.paramText = "" from empty, splitTypes, splitTypesFrom] at ref'
      have none : m.params = [] := (Except.ok.inj ref').symm
      simp [none] at high
      omega
    obtain ⟨-, m', _, stands⟩ := faithful.exists_stands inside
    have described' := (described.method? stands.isMethod).lines _ (Array.mem_of_getElem? stands.isLine)
    have same := MethodRef.Described.params_eq (described' ref (by rw [show s.line.operation = _ from calls]; rfl)) ref'
      (matched.resolve_left some)
    exact .inr ⟨low, same ▸ high⟩

end Orderly

theorem resolveMethod?_of_resolve? {ref : MethodRef} {id : MethodId} (resolves : x.resolve? ref = some id) :
    x.program.resolveMethod? ref = some id := by
  obtain ⟨id', resolved, found⟩ := Option.bind_eq_some_iff.mp resolves
  obtain ⟨m, -, given⟩ := Option.bind_eq_some_iff.mp found
  split at given
  · rwa [Option.some.inj given] at resolved
  · simp at given

/-- A body that a call may run has a register for every parameter. -/
theorem exists_paramRegister_of_implementation (described : x.program.Described) {ref : MethodRef} {id body : MethodId}
    {m : Method} (called : ref.Described) (resolves : x.resolve? ref = some id) (runs : body ∈ x.implementations id)
    (isMethod : x.program.method? body = some m) {index : Int} (low : 0 ≤ index) (high : index < ref.params.length) :
    ∃ r, m.paramRegister index = .ok r := by
  obtain ⟨callee, isCallee, -, same⟩ := Program.method?_of_resolveMethod? (resolveMethod?_of_resolve? resolves)
  have same' : m.paramText = callee.paramText := by
    rcases (Program.mem_implementations isCallee).mp (List.mem_filter.mp runs).1 with rfl | ⟨-, sub, -, declared⟩
    · rw [Option.some.inj (isMethod.symm.trans isCallee)]
    · obtain ⟨m', isMethod', -, params⟩ := Program.method?_of_declared? declared
      rw [Option.some.inj (isMethod.symm.trans isMethod'), params]
  have params := MethodRef.Described.params_eq (described.method? isMethod).ref called (same'.trans same)
  exact Method.exists_paramRegister low (by rw [show m.params = ref.params from params]; exact high)

/-! ### Programs of one body -/

/-- The program has one body, which nothing calls. -/
structure OneBody (x : Index) (m : Method) (g : BlockGraph.Graph) : Prop where
  method : ∀ id m', x.program.method? id = some m' → m' = m
  graph : ∀ id g', x.graph? id = some g' → g' = g
  uncalled : (x.callSites.lines m.name).toList = []

namespace OneBody

variable {x : Index} {m : Method} {g : BlockGraph.Graph} (one : OneBody x m g)
include one

theorem sitesOf_callSitesOf (id : MethodId) : x.sitesOf (x.callSitesOf id) = [] := by
  rw [Index.callSitesOf]
  cases isMethod : x.program.method? id with
  | none => rfl
  | some m' =>
    rw [one.method id m' isMethod]
    simp [Index.callSitesMatching, one.uncalled, Index.sitesOf]

theorem orderly (enough : ∀ line ∈ m.lines, line.kind = .invoke → line.instruction.arguments.isOk)
    (unpicked : ∀ line ∈ m.lines, line.kind ≠ .moveResult) (alive : BlockGraph.NoDeadCode m) : x.Orderly where
  enough id m' isMethod _ line inside calls := by
    rw [one.method id m' isMethod] at inside
    have made := enough line inside calls
    cases found : line.instruction.arguments with
    | ok arguments => exact ⟨arguments, rfl⟩
    | error e => simp [found, Except.isOk, Except.toBool] at made
  agree id m' _ s isCall := by simp [one.sitesOf_callSitesOf] at isCall
  picked id m' isMethod _ l picks := by
    rw [one.method id m' isMethod] at picks
    obtain ⟨line, isLine, same⟩ := Option.map_eq_some_iff.mp picks
    exact absurd same (unpicked line (Array.mem_of_getElem? isLine))
  alive id m' isMethod _ := one.method id m' isMethod ▸ alive

theorem untangled (faithful : x.Faithful) (unpicked : ∀ line ∈ m.lines, line.kind ≠ .moveResult)
    (returns : ∀ block ∈ g.blocks, block.succs ≠ [] → ∀ l ∈ block.lines, BlockGraph.lineKind? m l ≠ some .ret) :
    x.Untangled where
  returns b block isBlock returned := by
    obtain ⟨s, inside, isReturn⟩ := returned
    obtain ⟨rfl, m', block', stands⟩ := faithful.exists_stands inside
    cases isBlock.symm.trans stands.isBlock
    obtain ⟨g', _, isGraph, -, atIndex⟩ := stands.flow
    have isKind := stands.lineKind?
    rw [one.method _ m' stands.isMethod, isReturn] at isKind
    rw [one.graph _ g' isGraph] at atIndex
    by_contra more
    exact returns block (Array.mem_of_getElem? atIndex) (fun last => more (.inl last)) _
      (List.mem_of_getElem? stands.listed) isKind
  picks b block _ s inside picks _ := by
    obtain ⟨rfl, m', _, stands⟩ := faithful.exists_stands inside
    have isLine := stands.isLine
    rw [one.method _ m' stands.isMethod] at isLine
    exact absurd picks (unpicked _ (Array.mem_of_getElem? isLine))
  overloads id m' _ s isCall := by simp [one.sitesOf_callSitesOf] at isCall

end OneBody

theorem graph?_of_insert {only id : MethodId} {g g' : BlockGraph.Graph}
    (prepared : x.prepared = Std.HashMap.insert {} only (.built g)) (found : x.graph? id = some g') : g' = g := by
  simp only [graph?, prepared, Std.HashMap.getElem?_insert, Std.HashMap.getElem?_empty] at found
  split at found
  · next same =>
    split at same
    · cases same
      exact (Option.some.inj found).symm
    · simp at same
  · simp at found

end SmaliTrace.Index
