import SmaliTrace.BlockGraph.Builder
import SmaliTrace.Proofs.BlockGraph.Failure
import SmaliTrace.Proofs.BlockGraph.Labels
import SmaliTrace.Proofs.Index.Scan

/-!
What building blocks in place does. From a fresh method it ends as the block graph of the body says: with the blocks of
the graph in the heap, or with the fault and everything else taken back. The error for an edge out of the blocks does not
occur, and nothing is written to another method.
-/
namespace SmaliTrace.BlockGraph
open SmaliTrace.ClassFile SmaliTrace.Smali

namespace Heap

variable {h h₀ h₁ h₂ : Heap} {id : MethodId} {m : Method} {g : Graph} {e : MethodFault}

/-- The heaps hold the same of every other method, of its lines and of its blocks. -/
structure SameBut (id : MethodId) (h h' : Heap) : Prop where
  method : ∀ k, k ≠ id → h'.method k = h.method k
  lines : ∀ k, k ≠ id → h'.lineBlock k = h.lineBlock k
  blocks : ∀ b : BlockId, b.method ≠ id → h'.block b = h.block b

/-- The method is as it was parsed: it has the fault of its body, if that has one, and nothing else. -/
structure Fresh (h : Heap) (id : MethodId) (m : Method) : Prop where
  method : h.method id = { fault := m.fault.map .body }
  lines : ∀ line, h.lineBlock id line = none

/-- The method, its lines and its blocks hold the graph. -/
structure Holds (h : Heap) (id : MethodId) (g : Graph) : Prop where
  method : h.method id =
    { tries := g.tries, blocks := (List.range g.blocks.size).map (⟨id, ·⟩), unlinked := g.unlinked }
  lines : ∀ line, h.lineBlock id line = (g.locate? line).map fun place => ⟨id, place.1⟩
  blocks : ∀ (b : Nat) (block : Block), g.blocks[b]? = some block → h.block ⟨id, b⟩ = block

/-- The method has the fault and nothing else: no blocks, no try ranges, no mark for unlinked blocks, and no line with a
block. -/
structure Bare (h : Heap) (id : MethodId) (e : MethodFault) : Prop where
  method : h.method id = { fault := some e }
  lines : ∀ line, h.lineBlock id line = none

/-! ### Writing -/

@[simp] theorem method_setMethod (h : Heap) (id : MethodId) (f : MethodCell → MethodCell) :
    (h.setMethod id f).method id = f (h.method id) := by simp [setMethod]

@[simp] theorem lineBlock_setMethod (h : Heap) (id : MethodId) (f : MethodCell → MethodCell) :
    (h.setMethod id f).lineBlock = h.lineBlock := rfl

@[simp] theorem block_setMethod (h : Heap) (id : MethodId) (f : MethodCell → MethodCell) :
    (h.setMethod id f).block = h.block := rfl

@[simp] theorem method_setBlock (h : Heap) (b : BlockId) (f : Block → Block) : (h.setBlock b f).method = h.method := rfl

@[simp] theorem lineBlock_setBlock (h : Heap) (b : BlockId) (f : Block → Block) :
    (h.setBlock b f).lineBlock = h.lineBlock := rfl

theorem block_setBlock (h : Heap) (b k : BlockId) (f : Block → Block) :
    (h.setBlock b f).block k = if k = b then f (h.block k) else h.block k := rfl

@[simp] theorem method_addEdge (h : Heap) (a b : BlockId) : (h.addEdge a b).method = h.method := by
  unfold addEdge
  split <;> rfl

@[simp] theorem lineBlock_addEdge (h : Heap) (a b : BlockId) : (h.addEdge a b).lineBlock = h.lineBlock := by
  unfold addEdge
  split <;> rfl

/-- Writes the same to all the lines. -/
def setLines (h : Heap) (id : MethodId) (part : List Nat) (b : Option BlockId) : Heap :=
  part.foldl (fun h line => h.setLine id line b) h

@[simp] theorem method_setLines (h : Heap) (part : List Nat) (b : Option BlockId) :
    (h.setLines id part b).method = h.method := by
  induction part generalizing h with
  | nil => rfl
  | cons line part ih => exact ih (h.setLine id line b)

@[simp] theorem block_setLines (h : Heap) (part : List Nat) (b : Option BlockId) :
    (h.setLines id part b).block = h.block := by
  induction part generalizing h with
  | nil => rfl
  | cons line part ih => exact ih (h.setLine id line b)

theorem lineBlock_setLines (h : Heap) (part : List Nat) (b : Option BlockId) (k : MethodId) (line : Nat) :
    (h.setLines id part b).lineBlock k line = if k = id ∧ line ∈ part then b else h.lineBlock k line := by
  induction part generalizing h with
  | nil => simp [setLines]
  | cons first part ih =>
    rw [setLines, List.foldl_cons, ← setLines, ih]
    simp only [setLine, List.mem_cons]
    grind

namespace SameBut

theorem refl (h : Heap) : SameBut id h h := ⟨fun _ _ => rfl, fun _ _ => rfl, fun _ _ => rfl⟩

theorem trans (first : SameBut id h₀ h₁) (second : SameBut id h₁ h₂) : SameBut id h₀ h₂ where
  method k other := (second.method k other).trans (first.method k other)
  lines k other := (second.lines k other).trans (first.lines k other)
  blocks b other := (second.blocks b other).trans (first.blocks b other)

theorem setMethod (h : Heap) (f : MethodCell → MethodCell) : SameBut id h (h.setMethod id f) where
  method _ other := if_neg other
  lines _ _ := rfl
  blocks _ _ := rfl

theorem setBlock (h : Heap) (b : Nat) (f : Block → Block) : SameBut id h (h.setBlock ⟨id, b⟩ f) where
  method _ _ := rfl
  lines _ _ := rfl
  blocks _ other := if_neg fun same => other (congrArg BlockId.method same)

theorem setLines (h : Heap) (part : List Nat) (b : Option BlockId) : SameBut id h (h.setLines id part b) where
  method _ _ := by rw [method_setLines]
  lines k other := funext fun line => by rw [lineBlock_setLines, if_neg fun both => other both.1]
  blocks _ _ := by rw [block_setLines]

theorem addEdge (h : Heap) (a b : Nat) : SameBut id h (h.addEdge ⟨id, a⟩ ⟨id, b⟩) := by
  unfold Heap.addEdge
  split
  · exact refl h
  · exact (setBlock h a _).trans (setBlock _ b _)

section

variable {h' : Heap} (same : h.SameBut id h') {k : MethodId} (other : k ≠ id)
include same other

theorem fresh (fresh : h.Fresh k m) : h'.Fresh k m where
  method := by rw [same.method k other, fresh.method]
  lines line := by rw [same.lines k other, fresh.lines]

theorem holds {g : Graph} (holds : h.Holds k g) : h'.Holds k g where
  method := by rw [same.method k other, holds.method]
  lines line := by rw [same.lines k other, holds.lines]
  blocks b block found := by rw [same.blocks ⟨k, b⟩ other, holds.blocks b block found]

theorem bare {e : MethodFault} (bare : h.Bare k e) : h'.Bare k e where
  method := by rw [same.method k other, bare.method]
  lines line := by rw [same.lines k other, bare.lines]

end

end SameBut

/-- Taking back leaves the fault alone, whatever was written to the method and to its lines. -/
theorem Bare.rollBack (within : ∀ line, h.lineBlock id line ≠ none → line < m.lines.size)
    (unmarked : (h.method id).unlinked = false) (e : MethodFault) : (h.rollBack m id e).Bare id e := by
  constructor
  · change ((h.setMethod id _).setLines id (List.range m.lines.size) none).method id = _
    simp [unmarked]
  · intro line
    change ((h.setMethod id _).setLines id (List.range m.lines.size) none).lineBlock id line = _
    rw [lineBlock_setLines, lineBlock_setMethod]
    split
    · rfl
    · next outside =>
      by_contra set
      exact outside ⟨rfl, List.mem_range.mpr (within line set)⟩

theorem SameBut.rollBack (h : Heap) (m : Method) (e : MethodFault) : SameBut id h (h.rollBack m id e) :=
  (setMethod h _).trans (setLines _ (List.range m.lines.size) none)

end Heap

/-! ### Running -/

section

variable {α : Type} {x : BuildM Unit} {s s' : Builder} {e : FlowError}

theorem bind_of_ok {f : Unit → BuildM α} (ran : x s = .ok () s') : (x >>= f) s = f () s' := by
  simp [bind, EStateM.bind, ran]

theorem bind_of_error {f : Unit → BuildM α} (ran : x s = .error e s') : (x >>= f) s = .error e s' := by
  simp [bind, EStateM.bind, ran]

theorem get_bind {f : Builder → BuildM α} : ((get : BuildM Builder) >>= f) s = f s s := rfl

/-- What each turn keeps of what was done holds at the end of a loop that does not fail. -/
theorem forM_of_step {f : α → BuildM Unit} {all : List α} (P : List α → Builder → Prop) (start : P [] s)
    (step : ∀ before a after, all = before ++ a :: after → ∀ s, P before s →
      ∃ s', f a s = .ok () s' ∧ P (before ++ [a]) s') :
    ∃ s', all.forM f s = .ok () s' ∧ P all s' := by
  suffices run : ∀ after before s, all = before ++ after → P before s →
      ∃ s', after.forM f s = .ok () s' ∧ P all s' from run all [] s rfl start
  intro after
  induction after with
  | nil =>
    intro before s split kept
    rw [List.append_nil] at split
    exact ⟨s, rfl, split ▸ kept⟩
  | cons a after ih =>
    intro before s split kept
    obtain ⟨s₁, ran, kept₁⟩ := step before a after split s kept
    obtain ⟨s', rest, last⟩ := ih (before ++ [a]) s₁ (by simp [split]) kept₁
    refine ⟨s', ?_, last⟩
    change (f a >>= fun _ => after.forM f) s = _
    rw [bind_of_ok ran, rest]

end

/-! ### Collecting -/

section

variable {m : Method} {id : MethodId} {s : Builder} {flow : Flow} {e : FlowError}

/-- The state with other links and try ranges. -/
def Builder.withFlow (s : Builder) (id : MethodId) (flow : Flow) : Builder :=
  ⟨s.heap.setMethod id fun c => { c with tries := flow.tries }, flow.links⟩

theorem sameBut_withFlow (h : Heap) (flow : Flow) : h.SameBut id (({ heap := h } : Builder).withFlow id flow).heap :=
  .setMethod h fun c => { c with tries := flow.tries }

theorem Builder.flow_withFlow : (s.withFlow id flow).flow id = flow := by simp [Builder.withFlow, Builder.flow]

theorem Builder.withFlow_withFlow {flow' : Flow} : (s.withFlow id flow).withFlow id flow' = s.withFlow id flow' := by
  simp only [Builder.withFlow, Heap.setMethod]
  congr 2
  funext k
  split <;> rfl

theorem Builder.withFlow_flow : s.withFlow id (s.flow id) = s := by
  simp only [Builder.withFlow, Builder.flow, Heap.setMethod]
  congr
  funext k
  split
  · next same => rw [same]
  · rfl

variable (m) (id) in
/-- The lines are read as the flow of the body is collected; only the links and the try ranges are written. -/
theorem forM_collectLine (lines : List Nat) (s : Builder) :
    (∀ flow, lines.foldlM (addLine m) (s.flow id) = .ok flow →
      lines.forM (collectLine m id) s = .ok () (s.withFlow id flow)) ∧
    ∀ e, lines.foldlM (addLine m) (s.flow id) = .error e →
      ∃ flow, lines.forM (collectLine m id) s = .error e (s.withFlow id flow) := by
  induction lines generalizing s with
  | nil =>
    constructor
    · intro flow same
      cases same
      rw [Builder.withFlow_flow]
      rfl
    · intro e failed
      cases failed
  | cons line lines ih =>
    have unrolled : (line :: lines).forM (collectLine m id) s =
        (collectLine m id line >>= fun _ => lines.forM (collectLine m id)) s := rfl
    rw [List.foldlM_cons, unrolled]
    cases read : addLine m (s.flow id) line with
    | error e =>
      have failed : collectLine m id line s = .error e s := by simp [collectLine, read]
      rw [bind_of_error failed]
      constructor
      · intro flow ok
        cases ok
      · intro e' same
        cases same
        exact ⟨s.flow id, by rw [Builder.withFlow_flow]⟩
    | ok flow =>
      have ran : collectLine m id line s = .ok () (s.withFlow id flow) := by simp [collectLine, read, Builder.withFlow]
      obtain ⟨succeeds, fails⟩ := ih (s.withFlow id flow)
      rw [Builder.flow_withFlow] at succeeds fails
      rw [bind_of_ok ran]
      refine ⟨fun flow' last => ?_, fun e last => ?_⟩
      · rw [succeeds flow' last, Builder.withFlow_withFlow]
      · obtain ⟨flow', failed⟩ := fails e last
        exact ⟨flow', by rw [failed, Builder.withFlow_withFlow]⟩

end

/-! ### Blocks and edges -/

/-- The blocks of the parts are made, with the given edges and no labels yet, and nothing is written elsewhere. -/
structure Wired (m : Method) (id : MethodId) (flow : Flow) (h₀ : Heap) (parts : List (List Nat))
    (edges : List (Nat × Nat)) (s : Builder) : Prop where
  links : s.links = flow.links
  method : s.heap.method id = { tries := flow.tries, blocks := (List.range parts.length).map (⟨id, ·⟩) }
  lines : ∀ line, s.heap.lineBlock id line =
    if line ∈ parts.flatten then some ⟨id, partOf parts line⟩ else none
  blocks : ∀ (b : Nat) (part : List Nat), parts[b]? = some part →
    s.heap.block ⟨id, b⟩ = makeBlock m flow edges [] part b
  frame : h₀.SameBut id s.heap

theorem succsOf_concat (edges : List (Nat × Nat)) (a b k : Nat) :
    succsOf (edges ++ [(a, b)]) k = if k = a then succsOf edges k ++ [b] else succsOf edges k := by
  rw [succsOf, List.filterMap_append]
  by_cases same : k = a
  · simp [succsOf, same]
  · simp [succsOf, same, Ne.symm same]

theorem predsOf_concat (edges : List (Nat × Nat)) (a b k : Nat) :
    predsOf (edges ++ [(a, b)]) k = if k = b then predsOf edges k ++ [a] else predsOf edges k := by
  rw [predsOf, List.filterMap_append]
  by_cases same : k = b
  · simp [predsOf, same]
  · simp [predsOf, same, Ne.symm same]

/-- A block with one more edge. -/
theorem makeBlock_concat (m : Method) (flow : Flow) (edges : List (Nat × Nat)) (a b : Nat) (part : List Nat) (k : Nat) :
    makeBlock m flow (edges ++ [(a, b)]) [] part k =
      let block := makeBlock m flow edges [] part k
      { block with
        succs := if k = a then block.succs ++ [b] else block.succs
        preds := if k = b then block.preds ++ [a] else block.preds } := by
  simp only [makeBlock, succsOf_concat, predsOf_concat]

/-- The edge from a block to the next one, unless control never falls through its last line. -/
def fallEdge? (m : Method) (parts : List (List Nat)) (b : Nat) : Option (Nat × Nat) :=
  match (parts[b]?.bind (lastExecutable? m)).bind (lineKind? m) with
  | some kind => if kind.endsBlock then none else some (b, b + 1)
  | none => none

/-- Each of so many blocks of the method with the one behind it. -/
def neighbours (id : MethodId) (n : Nat) : List (BlockId × BlockId) :=
  (List.range (n - 1)).map fun b => (⟨id, b⟩, ⟨id, b + 1⟩)

theorem zip_tail_blocks (id : MethodId) (n : Nat) :
    ((List.range n).map (BlockId.mk id)).zip ((List.range n).map (BlockId.mk id)).tail = neighbours id n := by
  refine List.ext_getElem (by simp [neighbours]) fun i _ _ => ?_
  simp [neighbours]

namespace Wired

variable {m : Method} {id : MethodId} {flow : Flow} {h₀ : Heap} {parts : List (List Nat)} {edges : List (Nat × Nat)}
  {s : Builder}

/-- One more block is made, of lines that are in no part yet. -/
theorem newBlock (wired : Wired m id flow h₀ parts [] s) {part : List Nat}
    (apart : ∀ line ∈ part, line ∉ parts.flatten) :
    ∃ s', newBlock m id part parts.length s = .ok () s' ∧ Wired m id flow h₀ (parts ++ [part]) [] s' := by
  let h := (s.heap.setBlock ⟨id, parts.length⟩ fun _ => makeBlock m (s.flow id) [] [] part parts.length).setLines id
    part (some ⟨id, parts.length⟩)
  refine ⟨{ s with heap := h.setMethod id fun c => { c with blocks := c.blocks ++ [⟨id, parts.length⟩] } }, rfl, ?_⟩
  have kept : s.flow id = flow := by simp [Builder.flow, wired.links, wired.method]
  constructor
  · exact wired.links
  · simp [h, wired.method, List.range_succ]
  · intro line
    rw [Heap.lineBlock_setMethod, Heap.lineBlock_setLines, Heap.lineBlock_setBlock, wired.lines]
    by_cases here : line ∈ part
    · have first : partOf (parts ++ [part]) line = parts.length := by
        have earlier : ∀ p ∈ parts, line ∉ p := fun p inside has =>
          apart line here (List.mem_flatten.mpr ⟨p, inside, has⟩)
        rw [partOf, List.findIdx_append, List.findIdx_eq_length_of_false (by simpa using earlier)]
        simp [here]
      simp [here, first]
    · simp only [here, and_false, if_false, List.flatten_append, List.flatten_singleton, List.mem_append, or_false]
      split
      · next before =>
        obtain ⟨p, inside, has⟩ := List.mem_flatten.mp before
        have found : (parts.findIdx fun p => p.contains line) < parts.length :=
          List.findIdx_lt_length_of_exists ⟨p, inside, by simpa using has⟩
        rw [partOf, partOf, List.findIdx_append, if_pos found]
      · rfl
  · intro b p found
    rw [Heap.block_setMethod, Heap.block_setLines, Heap.block_setBlock]
    by_cases last : b = parts.length
    · subst last
      rw [List.getElem?_concat_length, Option.some.injEq] at found
      rw [if_pos rfl, kept, found]
    · rw [if_neg fun same => last (congrArg BlockId.index same)]
      rw [List.getElem?_append] at found
      split at found
      · exact wired.blocks b p found
      · next beyond =>
        rw [List.getElem?_eq_none (by simp; omega)] at found
        cases found
  · have filed : s.heap.SameBut id h := (Heap.SameBut.setBlock _ _ _).trans (Heap.SameBut.setLines _ _ _)
    exact wired.frame.trans (filed.trans (.setMethod h fun c => { c with blocks := c.blocks ++ [⟨id, parts.length⟩] }))

/-- An edge between two blocks is added, unless it is there. -/
theorem addEdge {found : List (Nat × Nat)} (wired : Wired m id flow h₀ parts found.eraseDups s) {a b : Nat}
    (inside : a < parts.length) :
    Wired m id flow h₀ parts (found ++ [(a, b)]).eraseDups { s with heap := s.heap.addEdge ⟨id, a⟩ ⟨id, b⟩ } := by
  have source := wired.blocks a _ (List.getElem?_eq_getElem inside)
  have known : b ∈ (s.heap.block ⟨id, a⟩).succs ↔ (a, b) ∈ found := by
    rw [source]
    simp [makeBlock, succsOf, List.mem_eraseDups]
  refine ⟨wired.links, ?_, fun line => ?_, fun k part at_ => ?_, wired.frame.trans (.addEdge _ a b)⟩
  · rw [Heap.method_addEdge, wired.method]
  · rw [Heap.lineBlock_addEdge, wired.lines]
  · rw [SmaliTrace.Graph.eraseDups_concat, Heap.addEdge]
    by_cases old : (a, b) ∈ found
    · rw [if_pos old, if_pos (known.mpr old), wired.blocks k part at_]
    · rw [if_neg old, if_neg fun inside => old (known.mp inside), makeBlock_concat, ← wired.blocks k part at_,
        Heap.block_setBlock, Heap.block_setBlock]
      have isSource : (⟨id, k⟩ : BlockId) = ⟨id, a⟩ ↔ k = a := by simp
      have isTarget : (⟨id, k⟩ : BlockId) = ⟨id, b⟩ ↔ k = b := by simp
      simp only [isSource, isTarget]
      split_ifs <;> rfl

/-- A link between lines of the parts becomes an edge, unless it is a bridge inside one part. -/
theorem connectLink {found : List (Nat × Nat)} (wired : Wired m id flow h₀ parts found.eraseDups s) {link : Link}
    (source : link.src ∈ parts.flatten) (target : link.dst ∈ parts.flatten) :
    ∃ s', connectLink m id link s = .ok () s' ∧
      Wired m id flow h₀ parts (found ++ linkEdges parts [link]).eraseDups s' := by
  unfold BlockGraph.connectLink
  simp only [wired.lines, source, target, if_true, BlockId.mk.injEq, true_and]
  by_cases skipped : link.bridge = true ∧ partOf parts link.src = partOf parts link.dst
  · refine ⟨s, by simp [skipped], ?_⟩
    simpa [linkEdges, skipped] using wired
  · have inside : partOf parts link.src < parts.length := by
      obtain ⟨part, member, has⟩ := List.mem_flatten.mp source
      exact List.findIdx_lt_length_of_exists ⟨part, member, by simpa using has⟩
    have edge : linkEdges parts [link] = [(partOf parts link.src, partOf parts link.dst)] := by
      simp [linkEdges, skipped]
    refine ⟨{ s with heap := s.heap.addEdge ⟨id, partOf parts link.src⟩ ⟨id, partOf parts link.dst⟩ }, ?_, ?_⟩
    · simp [skipped]
    · rw [edge]
      exact wired.addEdge inside

/-- A block and the next one get the edge that control takes if it falls through. -/
theorem connectNext {found : List (Nat × Nat)} (wired : Wired m id flow h₀ parts found.eraseDups s) {b : Nat}
    (inside : b < parts.length) :
    ∃ s', connectNext m ⟨id, b⟩ ⟨id, b + 1⟩ s = .ok () s' ∧
      Wired m id flow h₀ parts (found ++ (fallEdge? m parts b).toList).eraseDups s' := by
  have part := List.getElem?_eq_getElem inside
  have lines : (s.heap.block ⟨id, b⟩).lines = parts[b] := by rw [wired.blocks b _ part]; rfl
  refine ⟨_, rfl, ?_⟩
  dsimp only
  rw [lines, fallEdge?, part, Option.bind_some]
  cases (lastExecutable? m parts[b]).bind (lineKind? m) with
  | none => simpa using wired
  | some kind =>
    cases ends : kind.endsBlock with
    | true => simpa [ends] using wired
    | false => simpa [ends] using wired.addEdge inside

theorem partitionLines (live : ∃ l, executable m l = true) (wired : Wired m id flow h₀ [] [] s) :
    ∃ s', partitionLines m id s = .ok () s' ∧ Wired m id flow h₀ (partition m flow.links) [] s' := by
  have started : BlockGraph.partitionLines m id s =
      ((partition m s.links).zipIdx.forM fun made => BlockGraph.newBlock m id made.1 made.2 : BuildM Unit) s := rfl
  rw [started, wired.links]
  have step : ∀ before made after, (partition m flow.links).zipIdx = before ++ made :: after →
      ∀ s, Wired m id flow h₀ (before.map Prod.fst) [] s →
        ∃ s', BlockGraph.newBlock m id made.1 made.2 s = .ok () s' ∧
          Wired m id flow h₀ ((before ++ [made]).map Prod.fst) [] s' := by
    rintro before ⟨part, b⟩ after split s wired
    have place : b = before.length := by
      have here : (partition m flow.links).zipIdx[before.length]? = some (part, b) := by simp [split]
      rw [List.getElem?_zipIdx, Option.map_eq_some_iff] at here
      obtain ⟨_, _, same⟩ := here
      simpa using (congrArg Prod.snd same).symm
    have parts : partition m flow.links = before.map Prod.fst ++ part :: after.map Prod.fst := by
      have firsts := congrArg (List.map Prod.fst) split
      rwa [List.zipIdx_map_fst, List.map_append, List.map_cons] at firsts
    have apart : ∀ line ∈ part, line ∉ (before.map Prod.fst).flatten := by
      have once : (partition m flow.links).flatten.Nodup := by
        rw [flatten_partition flow.links live]
        exact List.nodup_range
      rw [parts, List.flatten_append, List.flatten_cons] at once
      exact fun line inside earlier =>
        (List.disjoint_of_nodup_append once) earlier (List.mem_append_left _ inside)
    obtain ⟨s', ran, made⟩ := wired.newBlock apart
    refine ⟨s', ?_, by simpa using made⟩
    rw [place, ← ran, List.length_map]
  obtain ⟨s', ran, made⟩ := forM_of_step (fun before s => Wired m id flow h₀ (before.map Prod.fst) [] s) wired step
  exact ⟨s', ran, by rwa [List.zipIdx_map_fst] at made⟩

theorem connect (wired : Wired m id flow h₀ parts [] s) (inside : ∀ link ∈ flow.links,
    link.src ∈ parts.flatten ∧ link.dst ∈ parts.flatten) :
    ∃ s', connect m id s = .ok () s' ∧ Wired m id flow h₀ parts (BlockGraph.edges m parts flow.links) s' := by
  have links_eq := wired.links
  have links : ∀ before link after, flow.links = before ++ link :: after → ∀ s,
      Wired m id flow h₀ parts (linkEdges parts before).eraseDups s → ∃ s', BlockGraph.connectLink m id link s = .ok () s' ∧
        Wired m id flow h₀ parts (linkEdges parts (before ++ [link])).eraseDups s' := by
    intro before link after split s wired
    obtain ⟨source, target⟩ := inside link (by simp [split])
    obtain ⟨s', ran, made⟩ := wired.connectLink source target
    exact ⟨s', ran, by rwa [linkEdges, List.filterMap_append]⟩
  obtain ⟨s₁, linked, wired⟩ := forM_of_step
    (fun before s => Wired m id flow h₀ parts (linkEdges parts before).eraseDups s) wired links
  have next : ∀ before pair after, neighbours id parts.length = before ++ pair :: after → ∀ s,
      Wired m id flow h₀ parts
        (linkEdges parts flow.links ++ (before.map (·.1.index)).filterMap (fallEdge? m parts)).eraseDups s →
      ∃ s', BlockGraph.connectNext m pair.1 pair.2 s = .ok () s' ∧ Wired m id flow h₀ parts
        (linkEdges parts flow.links ++
          ((before ++ [pair]).map (·.1.index)).filterMap (fallEdge? m parts)).eraseDups s' := by
    intro before pair after split s wired
    have here : (neighbours id parts.length)[before.length]? = some pair := by simp [split]
    obtain ⟨bound, isPair⟩ := List.getElem?_eq_some_iff.mp here
    rw [neighbours, List.length_map, List.length_range] at bound
    have first : pair = (⟨id, before.length⟩, ⟨id, before.length + 1⟩) := by simp [← isPair, neighbours]
    subst first
    obtain ⟨s', ran, made⟩ := wired.connectNext (b := before.length) (by omega)
    refine ⟨s', ran, ?_⟩
    cases edge : fallEdge? m parts before.length <;> simpa [edge, List.append_assoc] using made
  obtain ⟨s₂, joined, last⟩ := forM_of_step (fun (before : List (BlockId × BlockId)) s => Wired m id flow h₀
    parts (linkEdges parts flow.links ++ (before.map (·.1.index)).filterMap (fallEdge? m parts)).eraseDups s)
    (by simpa using wired) next
  have made : (neighbours id parts.length).map (·.1.index) = List.range (parts.length - 1) := by
    rw [neighbours, List.map_map]
    exact List.map_id _
  rw [made] at last
  refine ⟨s₂, ?_, last⟩
  have started : BlockGraph.connect m id s = (s.links.forM (BlockGraph.connectLink m id) >>= fun _ => get >>= fun s =>
      (((s.heap.method id).blocks.zip (s.heap.method id).blocks.tail).forM fun pair =>
        BlockGraph.connectNext m pair.1 pair.2)) s := rfl
  rw [started, links_eq, bind_of_ok linked, get_bind, wired.method, zip_tail_blocks, joined]

/-- The successors in the heap are those of the edges. -/
theorem succs_eq (wired : Wired m id flow h₀ parts edges s) (closed : ∀ a b, (a, b) ∈ edges → a < parts.length) :
    s.succs id = succsOf edges := by
  funext b
  rw [Builder.succs, wired.method, List.getElem?_map]
  by_cases inside : b < parts.length
  · rw [List.getElem?_range inside, Option.map_some, Option.map_some, wired.blocks b _ (List.getElem?_eq_getElem inside)]
    rfl
  · have none : succsOf edges b = [] := by
      refine List.eq_nil_iff_forall_not_mem.mpr fun c member => inside (closed b c ?_)
      simpa [succsOf] using member
    rw [List.getElem?_eq_none (by simpa using inside), none]
    rfl

end Wired

/-! ### Labels -/

section

variable {m : Method} {id : MethodId} {g : Graph} {flow : Flow} {h₀ : Heap} {s : Builder}

/-- Numbers the blocks in the given order. -/
def setLabels (h : Heap) (id : MethodId) (order : List Nat) (first : Nat) : Heap :=
  (order.zipIdx first).foldl (fun h place => h.setBlock ⟨id, place.1⟩ fun x => { x with label := some place.2 }) h

theorem setLabels_cons (h : Heap) (b : Nat) (order : List Nat) (first : Nat) : setLabels h id (b :: order) first =
    setLabels (h.setBlock ⟨id, b⟩ fun x => { x with label := some first }) id order (first + 1) := rfl

@[simp] theorem method_setLabels (h : Heap) (order : List Nat) (first : Nat) :
    (setLabels h id order first).method = h.method := by
  induction order generalizing h first with
  | nil => rfl
  | cons b order ih => rw [setLabels_cons, ih, Heap.method_setBlock]

@[simp] theorem lineBlock_setLabels (h : Heap) (order : List Nat) (first : Nat) :
    (setLabels h id order first).lineBlock = h.lineBlock := by
  induction order generalizing h first with
  | nil => rfl
  | cons b order ih => rw [setLabels_cons, ih, Heap.lineBlock_setBlock]

theorem sameBut_setLabels (h : Heap) (order : List Nat) (first : Nat) :
    h.SameBut id (setLabels h id order first) := by
  induction order generalizing h first with
  | nil => exact .refl h
  | cons b order ih => exact (Heap.SameBut.setBlock h b _).trans (ih _ _)

/-- Each block is numbered by its place, if it has one. -/
theorem block_setLabels {order : List Nat} (distinct : order.Nodup) (h : Heap) (first b : Nat) :
    (setLabels h id order first).block ⟨id, b⟩ = { h.block ⟨id, b⟩ with
      label := ((order.idxOf? b).map (first + ·)).or (h.block ⟨id, b⟩).label } := by
  induction order generalizing h first with
  | nil => rfl
  | cons c order ih =>
    obtain ⟨fresh, distinct⟩ := List.nodup_cons.mp distinct
    rw [setLabels_cons, ih distinct, Heap.block_setBlock]
    by_cases here : b = c
    · subst here
      simp [List.idxOf?_cons, List.idxOf?_eq_none_iff.mpr fresh]
    · have apart : (⟨id, b⟩ : BlockId) ≠ ⟨id, c⟩ := fun same => here (congrArg BlockId.index same)
      simp [List.idxOf?_cons, apart, Ne.symm here, Function.comp_def, Nat.add_assoc, Nat.add_comm 1]

/-- The block of a line is that of its part. -/
theorem HasFlow.locate?_map_fst (has : HasFlow m g flow) (line : Nat) : (g.locate? line).map Prod.fst =
    if line ∈ (partition m flow.links).flatten then some (partOf (partition m flow.links) line) else none := by
  split
  · next inside =>
    rw [flatten_partition flow.links has.live, List.mem_range] at inside
    obtain ⟨b, block, found, lists, same⟩ := has.exists_block inside
    rw [has.locate?_eq found lists, same, Option.map_some]
  · next outside =>
    have none : g.blocks.findIdx? (fun block => block.lines.contains line) = none := by
      refine Array.findIdx?_eq_none_iff.mpr fun block member => ?_
      obtain ⟨b, found⟩ := Array.mem_iff_getElem?.mp member
      have isPart := List.mem_of_getElem? (has.part_of_block found)
      simpa using fun inside => outside (List.mem_flatten.mpr ⟨_, isPart, inside⟩)
    simp only [Graph.locate?, bind, none, Option.bind_none, Option.map_none]

theorem labelBlocks_eq (id : MethodId) (s : Builder) : labelBlocks id s =
    let order := SmaliTrace.Graph.preorder (s.succs id) (List.range (s.heap.method id).blocks.length) [0]
    let h := setLabels s.heap id order 0
    .ok () { s with
      heap := if order.length < (s.heap.method id).blocks.length then h.setMethod id fun c => { c with unlinked := true }
        else h } := rfl

/-- The blocks of a wired body, once they are labelled, are those of its graph. -/
theorem labelBlocks_holds (has : HasFlow m g flow)
    (wired : Wired m id flow h₀ (partition m flow.links) (edges m (partition m flow.links) flow.links) s) :
    ∃ s', labelBlocks id s = .ok () s' ∧ s'.heap.Holds id g ∧ h₀.SameBut id s'.heap := by
  let order := SmaliTrace.Graph.preorder (succsOf (edges m (partition m flow.links) flow.links))
    (List.range (partition m flow.links).length) [0]
  have walked : SmaliTrace.Graph.preorder (s.succs id) (List.range (partition m flow.links).length) [0] = order := by
    rw [wired.succs_eq fun a b edge => has.size_blocks ▸ (has.lt_size_of_mem_edges edge).1]
  have distinct : order.Nodup := SmaliTrace.Graph.nodup_preorder List.nodup_range
  let h := setLabels s.heap id order 0
  have count : (s.heap.method id).blocks.length = (partition m flow.links).length := by simp [wired.method]
  have labelled : labelBlocks id s = .ok () { s with
      heap := if order.length < (partition m flow.links).length then h.setMethod id fun c => { c with unlinked := true }
        else h } := by
    rw [labelBlocks_eq, count, walked]
  have marked : g.unlinked = decide (order.length < (partition m flow.links).length) := by rw [has.graph]; rfl
  have tries : g.tries = flow.tries := by rw [has.graph]; rfl
  have same : s.heap.SameBut id h := sameBut_setLabels s.heap order 0
  have method : h.method id = _ := (congrFun (method_setLabels s.heap order 0) id).trans wired.method
  have lines : ∀ line, h.lineBlock id line = (g.locate? line).map fun place => ⟨id, place.1⟩ := by
    intro line
    have place : (g.locate? line).map (fun place => BlockId.mk id place.1) =
        ((g.locate? line).map Prod.fst).map (BlockId.mk id) := by rw [Option.map_map]; rfl
    rw [place, has.locate?_map_fst, lineBlock_setLabels, wired.lines]
    split <;> rfl
  have blocks : ∀ b block, g.blocks[b]? = some block → h.block ⟨id, b⟩ = block := by
    intro b block found
    obtain ⟨part, isPart, rfl⟩ := has.block_iff.mp found
    rw [block_setLabels distinct, wired.blocks b part isPart]
    simp [makeBlock, order]
  refine ⟨_, labelled, ?_, ?_⟩
  · refine ⟨?_, ?_, ?_⟩
    · rw [marked, tries, has.size_blocks]
      split
      · next less => simp [method, less]
      · next all => simp [method, all]
    · split
      · exact lines
      · exact lines
    · split
      · exact blocks
      · exact blocks
  · split
    · exact wired.frame.trans (same.trans (.setMethod h fun c => { c with unlinked := true }))
    · exact wired.frame.trans same

end

/-! ### Building -/

section

variable {m : Method} {id : MethodId} {g : Graph} {h : Heap} {e : MethodFault}

open Heap

/-- Building a decoded body from a fresh method ends as its block graph says. An error leaves at most links and try
ranges behind. -/
theorem buildBody_of_build (fresh : h.Fresh id m) (decoded : m.fault = none) :
    (∀ g, build m = .ok g → ∃ s, buildBody m id { heap := h } = .ok () s ∧ s.heap.Holds id g ∧ h.SameBut id s.heap) ∧
      ∀ e, build m = .error e →
        ∃ flow, buildBody m id { heap := h } = .error e (({ heap := h } : Builder).withFlow id flow) := by
  have started : ({ heap := h } : Builder).flow id = {} := by simp [Builder.flow, fresh.method]
  obtain ⟨collects, fails⟩ := forM_collectLine m id (List.range m.lines.size) { heap := h }
  rw [started] at collects fails
  unfold build buildBody
  cases live : (List.range m.lines.size).any (executable m) with
  | false =>
    refine ⟨fun g built => ?_, fun e failed => by cases failed⟩
    cases built
    have lines : ∀ line, h.lineBlock id line = (({} : Graph).locate? line).map fun place => ⟨id, place.1⟩ := by
      simp [fresh.lines, Graph.locate?, bind]
    exact ⟨{ heap := h }, rfl, ⟨by simp [fresh.method, decoded], lines, by simp⟩, .refl h⟩
  | true =>
    simp only [if_true]
    cases collected : collectFlow m with
    | error e =>
      obtain ⟨flow, failed⟩ := fails e collected
      refine ⟨fun g built => (by cases built), fun e' same => ⟨flow, ?_⟩⟩
      cases same
      exact bind_of_error failed
    | ok flow =>
      refine ⟨fun g built => ?_, fun e failed => by cases failed⟩
      cases built
      have has : HasFlow m (ofFlow m flow) flow := ⟨(any_executable_iff m).mp live, collected, rfl⟩
      have wired : Wired m id flow h [] [] (({ heap := h } : Builder).withFlow id flow) := by
        refine ⟨rfl, ?_, fun line => fresh.lines line, fun b part found => by simp at found, sameBut_withFlow h flow⟩
        simp [Builder.withFlow, fresh.method, decoded]
      have inside : ∀ link ∈ flow.links, link.src ∈ (partition m flow.links).flatten ∧
          link.dst ∈ (partition m flow.links).flatten := by
        intro link member
        obtain ⟨line, given⟩ := (mem_links_iff collected link).mp member
        rw [flatten_partition flow.links has.live, List.mem_range, List.mem_range]
        exact ⟨src_lt_of_gives given, dst_lt_of_gives given⟩
      obtain ⟨s₁, made, wired⟩ := wired.partitionLines has.live
      obtain ⟨s₂, linked, wired⟩ := wired.connect inside
      obtain ⟨s₃, labelled, holds, same⟩ := labelBlocks_holds has wired
      refine ⟨s₃, ?_, holds, same⟩
      rw [bind_of_ok (collects flow collected), bind_of_ok made, bind_of_ok linked, labelled]

/-- From a fresh method whose block graph can be built, the call ends with the graph in the heap. -/
theorem buildBlocks_of_ok (fresh : h.Fresh id m) (built : ofMethod m = .ok g) :
    ∃ h', buildBlocks m id h = (.ok (), h') ∧ h'.Holds id g ∧ h.SameBut id h' := by
  unfold ofMethod at built
  cases decoded : m.fault with
  | some fault => simp [decoded] at built
  | none =>
    simp only [decoded] at built
    cases made : build m with
    | error e => simp [made] at built
    | ok g' =>
      simp only [made, Except.ok.injEq] at built
      subst built
      obtain ⟨s, ran, holds, same⟩ := (buildBody_of_build fresh decoded).1 g' made
      exact ⟨s.heap, by simp [buildBlocks, fresh.method, decoded, ran], holds, same⟩

/-- From a fresh method whose block graph cannot be built, the call ends with the fault alone. -/
theorem buildBlocks_of_error (fresh : h.Fresh id m) (failed : ofMethod m = .error e) :
    ∃ h', buildBlocks m id h = (.error e, h') ∧ h'.Bare id e ∧ h.SameBut id h' := by
  unfold ofMethod at failed
  cases decoded : m.fault with
  | some fault =>
    simp only [decoded, Except.error.injEq] at failed
    subst failed
    have broken : h.method id = { fault := some (.body fault) } := by rw [fresh.method, decoded]; rfl
    exact ⟨h, by simp [buildBlocks, broken], ⟨broken, fresh.lines⟩, .refl h⟩
  | none =>
    simp only [decoded] at failed
    cases made : build m with
    | ok g => simp [made] at failed
    | error e' =>
      simp only [made, Except.error.injEq] at failed
      subst failed
      obtain ⟨flow, ran⟩ := (buildBody_of_build fresh decoded).2 e' made
      let left := (({ heap := h } : Builder).withFlow id flow).heap
      have bare : (left.rollBack m id (.flow e')).Bare id (.flow e') := by
        refine Heap.Bare.rollBack (h := left) (fun line set => absurd (fresh.lines line) set) ?_ _
        simp [left, Builder.withFlow, fresh.method]
      refine ⟨left.rollBack m id (.flow e'), by simp [buildBlocks, fresh.method, decoded, ran, left], bare, ?_⟩
      exact (sameBut_withFlow h flow).trans (.rollBack left m _)

theorem sameBut_buildBlocks (fresh : h.Fresh id m) : h.SameBut id (buildBlocks m id h).2 := by
  cases made : ofMethod m with
  | ok g =>
    obtain ⟨_, ran, _, same⟩ := buildBlocks_of_ok fresh made
    rwa [ran]
  | error e =>
    obtain ⟨_, ran, _, same⟩ := buildBlocks_of_error fresh made
    rwa [ran]

/-- A broken method stays as it is. -/
theorem buildBlocks_of_bare (bare : h.Bare id e) : buildBlocks m id h = (.error e, h) := by
  simp [buildBlocks, bare.method]

/-- On a freshly parsed method whose body was decoded, the call fails exactly if something in the body is executed and the
control flow at some line of it cannot be resolved. Then the method is left with that fault and nothing else, and a second
call fails with the same fault and changes nothing. Whether it fails or not, the call changes no other method. -/
theorem buildBlocks_fails_cleanly (fresh : h.Fresh id m) (decoded : m.fault = none) :
    ((∃ e, (buildBlocks m id h).1 = .error e) ↔ (∃ l, executable m l = true) ∧ ∃ line, Unresolvable m line) ∧
      (∀ e h', buildBlocks m id h = (.error e, h') → h'.Bare id e ∧ buildBlocks m id h' = (.error e, h')) ∧
      h.SameBut id (buildBlocks m id h).2 := by
  rw [← fails_ofMethod_iff decoded, ← and_assoc]
  refine ⟨?_, sameBut_buildBlocks fresh⟩
  cases made : ofMethod m with
  | ok g =>
    obtain ⟨h', ran, _, _⟩ := buildBlocks_of_ok fresh made
    rw [ran]
    exact ⟨by simp, fun e h'' failed => (by cases failed)⟩
  | error e =>
    obtain ⟨h', ran, bare, _⟩ := buildBlocks_of_error fresh made
    rw [ran]
    refine ⟨by simp, fun e' h'' failed => ?_⟩
    cases failed
    exact ⟨bare, buildBlocks_of_bare bare⟩

/-- A switch that points at array data, behind a try range. -/
def switchOnArray : Method where
  owner := "LMain;"
  name := "broken"
  params := ["I"]
  result := "V"
  flags := [.static]
  lines := #[⟨1, "", .label "start", ""⟩, ⟨2, "nop", .nop, ""⟩, ⟨3, "", .label "stop", ""⟩,
    ⟨4, ".catchall", .handler ⟨"", "start", "stop", "start"⟩, ""⟩, ⟨5, "packed-switch", .switch "p0" "table", ""⟩,
    ⟨6, "return-void", .returnVoid, ""⟩, ⟨7, "", .label "table", ""⟩, ⟨8, ".array-data", .dataStart "4", ""⟩,
    ⟨9, "0x1", .data "0x1" "", ""⟩, ⟨10, ".end array-data", .dataEnd, ""⟩]

/-- A method that returns. -/
def onlyReturns : Method where
  owner := "LMain;"
  name := "sound"
  params := []
  result := "V"
  flags := [.static]
  lines := #[⟨12, "return-void", .returnVoid, ""⟩]

/-- The heap with both methods, when the blocks of the second one are built. -/
def besideSwitchOnArray : Heap :=
  (buildBlocks onlyReturns ⟨0, 1⟩ { method := fun _ => {}, lineBlock := fun _ _ => none, block := fun _ => default }).2

/-- The data has no label, and the body defines no empty one. The try range is known by then and is taken back. -/
theorem buildBlocks_switchOnArray :
    besideSwitchOnArray.Fresh ⟨0, 0⟩ switchOnArray ∧ switchOnArray.fault = none ∧
      (∃ line, Unresolvable switchOnArray line) ∧
      ∃ e h', buildBlocks switchOnArray ⟨0, 0⟩ besideSwitchOnArray = (.error e, h') ∧ h'.Bare ⟨0, 0⟩ e ∧
        buildBlocks switchOnArray ⟨0, 0⟩ h' = (.error e, h') ∧ besideSwitchOnArray.SameBut ⟨0, 0⟩ h' := by
  have parsed : Heap.SameBut ⟨0, 1⟩ _ besideSwitchOnArray :=
    sameBut_buildBlocks (m := onlyReturns) ⟨rfl, fun _ => rfl⟩
  have fresh : besideSwitchOnArray.Fresh ⟨0, 0⟩ switchOnArray := parsed.fresh (by decide) ⟨rfl, fun _ => rfl⟩
  have broken : ofMethod switchOnArray =
      .error (.flow ⟨(switchOnArray.lineLabel? 8).getD default, .unresolvedLabel ""⟩) := by cbv
  obtain ⟨h', ran, _⟩ := buildBlocks_of_error fresh broken
  obtain ⟨fails, clean, same⟩ := buildBlocks_fails_cleanly fresh rfl
  obtain ⟨bare, again⟩ := clean _ h' ran
  rw [ran] at fails same
  exact ⟨fresh, rfl, (fails.mp ⟨_, rfl⟩).2, _, h', ran, bare, again, same⟩

/-- What a visit does to a fresh method is what building its blocks does. -/
theorem Heap.visit_eq {p : Program} (isMethod : p.method? id = some m) (fresh : h.Fresh id m) :
    h.visit p id = (buildBlocks m id h).2 := by
  unfold Heap.visit
  simp only [isMethod]
  split
  · next empty =>
    have none : m.lines.size = 0 := by simpa [Array.isEmpty] using empty
    cases decoded : m.fault with
    | some fault => simp [buildBlocks, fresh.method, decoded]
    | none => simp [buildBlocks, fresh.method, decoded, buildBody, none, pure, EStateM.pure]
  · rfl

end

/-! ### Visiting the methods of a program -/

section

variable {p : Program} {h h' : Heap} {s : Index.Preparation} {id : MethodId} {m : Method}

/-- The heap holds what is known of each method of the program: nothing yet, its block graph, or its fault. -/
def Heap.Reflects (h : Heap) (p : Program) (s : Index.Preparation) : Prop :=
  ∀ id m, p.method? id = some m →
    (s.prepared[id]? = none → h.Fresh id m) ∧ (∀ g, s.prepared[id]? = some (.built g) → h.Holds id g) ∧
      ∀ e, s.prepared[id]? = some (.broken e) → h.Bare id e

/-- A visit to a method that nothing is known of yet makes known what it leaves in the heap. -/
theorem Heap.Reflects.visit (reflects : h.Reflects p s) (new : s.prepared[id]? = none) :
    (h.visit p id).Reflects p (s.visit p id) := by
  cases isMethod : p.method? id with
  | none => simpa [Heap.visit, Index.Preparation.visit, isMethod] using reflects
  | some m =>
    have fresh := (reflects id m isMethod).1 new
    rw [Heap.visit_eq isMethod fresh]
    intro k m' isMethod'
    by_cases here : k = id
    · subst here
      cases isMethod.symm.trans isMethod'
      rw [Index.prepared_visit isMethod, Index.outcome]
      cases made : ofMethod m with
      | ok g =>
        obtain ⟨_, ran, holds, _⟩ := buildBlocks_of_ok fresh made
        simpa [ran] using holds
      | error e =>
        obtain ⟨_, ran, bare, _⟩ := buildBlocks_of_error fresh made
        simpa [ran] using bare
    · obtain ⟨new', built, broken⟩ := reflects k m' isMethod'
      have same := sameBut_buildBlocks fresh
      rw [Index.prepared_visit_of_ne (Ne.symm here)]
      exact ⟨fun unknown => same.fresh here (new' unknown), fun g known => same.holds here (built g known),
        fun e known => same.bare here (broken e known)⟩

/-- When each of the methods was visited once, in whatever order, the heap holds what is known of them. -/
theorem Heap.Reflects.visits {order : List MethodId} (distinct : order.Nodup) (reflects : h.Reflects p s)
    (new : ∀ id ∈ order, s.prepared[id]? = none) :
    (order.foldl (Heap.visit p) h).Reflects p (order.foldl (Index.Preparation.visit p) s) := by
  induction order generalizing h s with
  | nil => exact reflects
  | cons id order ih =>
    obtain ⟨once, distinct⟩ := List.nodup_cons.mp distinct
    obtain ⟨here, later⟩ := List.forall_mem_cons.mp new
    refine ih distinct (reflects.visit here) fun k listed => ?_
    have other : id ≠ k := fun same => once (same ▸ listed)
    rw [Index.prepared_visit_of_ne other, later k listed]

end

end SmaliTrace.BlockGraph
