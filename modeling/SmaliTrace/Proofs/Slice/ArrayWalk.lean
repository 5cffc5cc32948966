import SmaliTrace.Proofs.BlockGraph.Blocks
import SmaliTrace.Proofs.Slice.Level
import SmaliTrace.Proofs.Slice.ValuePath

/-!
Array mode. A read of an array element starts a walk back to the allocation of the array, block by block, each
of which it enters once, with the register that it comes there with first. On a way back that no other way
crosses with another register it therefore meets every store to an element.
-/
namespace SmaliTrace.Slice
open SmaliTrace.Smali SmaliTrace.ClassFile

variable {x : Context} {r : RegisterSearch} {c c' : Cursor} {s : Site} {σ τ ρ : State} {v : Option Cursor}

/-! ### Entering blocks -/

/-- The frontier has room for every block of a graph of the given size. -/
structure Frontier.Ample (f : Frontier) (size : Nat) : Prop where
  distinct : f.visited.Nodup
  inside : ∀ b ∈ f.visited, b < size
  room : size ≤ f.room + f.visited.length

namespace Frontier.Ample

variable {f : Frontier} {size : Nat}

theorem start {depth : Int} {b : Nat} (inside : b < size) (deep : (size : Int) ≤ depth) :
    (Frontier.start depth b).Ample size where
  distinct := List.nodup_singleton b
  inside := by simpa [Frontier.start] using inside
  room := by
    simp only [Frontier.start, List.length_singleton]
    omega

/-- A block that was not visited finds room. -/
theorem room_pos (ample : f.Ample size) {b : Nat} (inside : b < size) (new : b ∉ f.visited) : f.room ≠ 0 := by
  intro full
  have within : b :: f.visited ⊆ List.range size := by
    intro i member
    rcases List.mem_cons.mp member with rfl | member
    · exact List.mem_range.mpr inside
    · exact List.mem_range.mpr (ample.inside i member)
  have few := ((List.nodup_cons.mpr ⟨new, ample.distinct⟩).subperm within).length_le
  have room := ample.room
  simp only [List.length_cons, List.length_range] at few
  omega

/-- With room for all, the new blocks are entered and no others. -/
theorem enter (ample : f.Ample size) {blocks : List Nat} (inside : ∀ b ∈ blocks, b < size) :
    (f.enter blocks).1.Ample size ∧
      (∀ b, b ∈ (f.enter blocks).1.visited ↔ b ∈ f.visited ∨ b ∈ (f.enter blocks).2) ∧
      ∀ b, b ∈ (f.enter blocks).2 ↔ b ∈ blocks ∧ b ∉ f.visited := by
  induction blocks generalizing f with
  | nil => exact ⟨ample, by simp [Frontier.enter], by simp [Frontier.enter]⟩
  | cons b blocks ih =>
    have later : ∀ i ∈ blocks, i < size := fun i member => inside i (List.mem_cons_of_mem _ member)
    by_cases old : b ∈ f.visited
    · obtain ⟨ample', visited, entered⟩ := ih ample later
      rw [Frontier.enter, if_pos (.inr old)]
      refine ⟨ample', visited, fun i => (entered i).trans ?_⟩
      simp only [List.mem_cons]
      exact ⟨fun new => ⟨.inr new.1, new.2⟩, fun new => ⟨new.1.resolve_left fun same => new.2 (same ▸ old), new.2⟩⟩
    · have room := ample.room_pos (inside b (by simp)) old
      have ample' : Ample ⟨f.room - 1, b :: f.visited⟩ size := by
        refine ⟨List.nodup_cons.mpr ⟨old, ample.distinct⟩, fun i member => ?_, ?_⟩
        · rcases List.mem_cons.mp member with rfl | member
          · exact inside i (by simp)
          · exact ample.inside i member
        · have := ample.room
          simp only [List.length_cons]
          omega
      obtain ⟨ample'', visited, entered⟩ := ih ample' later
      rw [Frontier.enter, if_neg (by simp [room, old])]
      refine ⟨ample'', fun i => (visited i).trans ?_, fun i => ?_⟩
      · simp only [List.mem_cons]
        tauto
      · simp only [List.mem_cons, entered]
        constructor
        · rintro (rfl | ⟨member, new⟩)
          · exact ⟨.inl rfl, old⟩
          · exact ⟨.inr member, fun seen => new (.inr seen)⟩
        · rintro ⟨rfl | member, new⟩
          · exact .inl rfl
          · by_cases same : i = b
            · exact .inl same
            · exact .inr ⟨member, fun seen => seen.elim same new⟩

end Frontier.Ample

/-! ### One line -/

theorem register_of_arrayCall {method : MethodRef}
    (ran : exec (arrayCall x r c s method) σ = (.ok c', τ)) : c'.register = c.register := by
  unfold arrayCall at ran
  split at ran
  · cases ran
    rfl
  · split at ran
    · exact register_of_copiedFrom ran
    · obtain ⟨_, _, _, filled⟩ := exec_bind_eq_ok_iff.mp ran
      exact register_of_filledByCall filled

/-- Array mode passes the lines that spare the register, goes on with the source of a copy or a row, and stops at
every other line. -/
theorem arrayLine_cases (ran : exec (arrayLine x r c s) σ = (.ok v, τ)) :
    (∃ c', v = some c' ∧ c'.register = c.register ∧ Spares s.operation c.register) ∨
      (∃ c', v = some c' ∧ Draws s.operation c.register c'.register) ∨
      (v = none ∧ ¬ Spares s.operation c.register ∧ ∀ source, ¬ Draws s.operation c.register source) := by
  have passed : ∀ {ρ : State}, exec (pure (some c) : SearchM (Option Cursor)) ρ = (.ok v, τ) → v = some c := by
    intro ρ ran
    cases ran
    rfl
  have stopped : ∀ {a : SearchM Unit} {ρ : State}, exec (do a; pure none) ρ = (.ok v, τ) → v = none := by
    intro a ρ ran
    obtain ⟨_, _, _, last⟩ := exec_bind_eq_ok_iff.mp ran
    cases last
    rfl
  unfold arrayLine at ran
  cases isOperation : s.operation with
  | newArray d _ _ | constClass d _ | moveResult d =>
    rw [isOperation] at ran
    dsimp only at ran
    split at ran
    · next same => exact .inr (.inr ⟨stopped ran, by simp [Spares, Operation.result?, same], by simp [Draws]⟩)
    · next other => exact .inl ⟨c, passed ran, rfl, by simpa [Spares, Operation.result?] using other⟩
  | fillArrayData array label =>
    rw [isOperation] at ran
    dsimp only at ran
    split at ran
    · next same => exact .inr (.inr ⟨stopped ran, by simp [Spares, same], by simp [Draws]⟩)
    · next other => exact .inl ⟨c, passed ran, rfl, by simpa [Spares, Operation.result?] using other⟩
  | arrayPut value array _ =>
    rw [isOperation] at ran
    dsimp only at ran
    split at ran
    · obtain ⟨c', _, stepped, ran⟩ := exec_bind_eq_ok_iff.mp ran
      obtain ⟨_, _, _, last⟩ := exec_bind_eq_ok_iff.mp ran
      cases last
      exact .inl ⟨c', rfl, register_of_step stepped, by simp [Spares, Operation.result?]⟩
    · exact .inl ⟨c, passed ran, rfl, by simp [Spares, Operation.result?]⟩
  | constLiteral d literal =>
    rw [isOperation] at ran
    dsimp only at ran
    split at ran
    · next other => exact .inl ⟨c, passed ran, rfl, by simpa [Spares, Operation.result?] using other⟩
    · next same =>
      have isNone : v = none := by
        split at ran
        · cases ran
          rfl
        · exact stopped ran
      exact .inr (.inr ⟨isNone, by simpa [Spares, Operation.result?] using same, by simp [Draws]⟩)
  | move d source | arrayGet d source _ =>
    rw [isOperation] at ran
    dsimp only at ran
    split at ran
    · next same =>
      obtain ⟨c', stepped, rfl⟩ := exec_map_eq_ok_iff.mp ran
      exact .inr (.inl ⟨c', rfl, by simp [Draws, register_of_step stepped, same]⟩)
    · next other => exact .inl ⟨c, passed ran, rfl, by simpa [Spares, Operation.result?] using other⟩
  | staticGet d field | instanceGet d _ field =>
    rw [isOperation] at ran
    dsimp only at ran
    split at ran
    · next same =>
      obtain ⟨_, _, _, ran⟩ := exec_bind_eq_ok_iff.mp ran
      exact .inr (.inr ⟨stopped ran, by simp [Spares, Operation.result?, same], by simp [Draws]⟩)
    · next other => exact .inl ⟨c, passed ran, rfl, by simpa [Spares, Operation.result?] using other⟩
  | invoke arguments method =>
    rw [isOperation] at ran
    obtain ⟨c', called, rfl⟩ := exec_map_eq_ok_iff.mp ran
    exact .inl ⟨c', rfl, register_of_arrayCall called, by simp [Spares, Operation.result?]⟩
  | _ =>
    rw [isOperation] at ran
    dsimp only at ran
    split at ran
    · next defines =>
      simp only [Operation.defines, decide_eq_true_eq] at defines
      exact .inr (.inr ⟨stopped ran, by simp [Spares, defines], by simp [Draws]⟩)
    · next idle =>
      simp only [Operation.defines, decide_eq_true_eq] at idle
      exact .inl ⟨c, passed ran, rfl, idle, by simp⟩

theorem mem_lines_of_step {line : LineId} {source register : Register}
    (ran : exec (step c line source register) σ = (.ok c', τ)) : line ∈ τ.work.graph.lines := by
  obtain ⟨id, ρ, added, ran⟩ := exec_bind_eq_ok_iff.mp ran
  obtain ⟨_, _, produced, last⟩ := exec_bind_eq_ok_iff.mp ran
  have here : line ∈ ρ.work.graph.lines := by
    cases added
    exact (SliceGraph.lines_addNode ..).2
  cases last
  exact ((develops_produceIf ..).grows produced).lines.subset here

/-- A store into the array is put into the slice. -/
theorem mem_lines_of_arrayPut {value position : Register} (stores : s.operation = .arrayPut value c.register position)
    (ran : exec (arrayLine x r c s) σ = (.ok v, τ)) : s.id ∈ τ.work.graph.lines := by
  simp only [arrayLine, stores, if_true] at ran
  obtain ⟨_, ρ, stepped, ran⟩ := exec_bind_eq_ok_iff.mp ran
  obtain ⟨_, _, forked, last⟩ := exec_bind_eq_ok_iff.mp ran
  cases last
  exact ((develops_fork ..).grows forked).lines.subset (mem_lines_of_step stepped)

/-! ### One block -/

/-- The lines that array mode goes over are a way back of the array. -/
theorem arrayPath_of_arrayLines {enters : BlockId → Prop} {b : BlockId} {n : Nat} (bound : n ≤ (x.index.sites b).length)
    (ran : exec (arrayLines x r c (linesBack x b ((n : Int) - 1))) σ = (.ok (some c'), τ)) :
    Relation.ReflTransGen (ArrayStep x.index enters Draws) ⟨c.register, b, n⟩ ⟨c'.register, b, 0⟩ := by
  induction n generalizing c σ with
  | zero =>
    have none : linesBack x b ((0 : Nat) - 1) = [] := by simp [linesBack]
    rw [none] at ran
    cases ran
    exact .refl
  | succ n ih =>
    have line : (x.index.sites b)[n]? = some (x.index.sites b)[n] := List.getElem?_eq_getElem bound
    rw [show ((n + 1 : Nat) : Int) - 1 = n by omega, linesBack_succ line] at ran
    obtain ⟨w, ρ, first, rest⟩ := exec_bind_eq_ok_iff.mp ran
    rcases arrayLine_cases first with ⟨c₁, rfl, same, spared⟩ | ⟨c₁, rfl, draws⟩ | ⟨rfl, -⟩
    · exact .head (.pass line spared) (same ▸ ih (by omega) rest)
    · exact .head (.carry line draws) (ih (by omega) rest)
    · cases rest

/-- Array mode went over the lines above the place with its register; if it came to the top of the block, the
predecessors of the block are among those visited. -/
def Scans (x : Context) (r : RegisterSearch) (τ : State) (visited : List Nat) (place : Place) : Prop :=
  ∃ c σ ρ v, c.register = place.register ∧ Grows ρ τ ∧
    exec (arrayLines x r c (linesBack x place.block ((place.above : Int) - 1))) σ = (.ok v, ρ) ∧
    ∀ c', v = some c' → ∀ i ∈ neighbours x place.block (·.preds), i ∈ visited

/-- A step of the way back stays in the scan, or goes over to a block that was visited. -/
theorem Scans.step {visited : List Nat} {enters : BlockId → Prop} {place next : Place} (scans : Scans x r τ visited place)
    (step : ArrayStep x.index enters Moves place next) :
    (place.above ≠ 0 ∧ Scans x r τ visited next) ∨
      (place.above = 0 ∧ enters next.block ∧ next.block.method = place.block.method ∧ next.block.index ∈ visited ∧
        ∃ block, x.index.block? next.block = some block ∧ next.above = block.lines.length) := by
  obtain ⟨c, σ, ρ, v, same, grows, ran, leaves⟩ := scans
  have onward : ∀ {register : Register} {b : BlockId} {n : Nat} {s : Site}, (x.index.sites b)[n]? = some s →
      exec (arrayLines x r c (linesBack x b (((n + 1 : Nat) : Int) - 1))) σ = (.ok v, ρ) →
      (∀ {w τ}, exec (arrayLine x r c s) σ = (.ok w, τ) → ∃ c', w = some c' ∧ c'.register = register) →
      (∀ c', v = some c' → ∀ i ∈ neighbours x b (·.preds), i ∈ visited) →
      Scans x r τ visited ⟨register, b, n⟩ := by
    intro register b n s line ran goes leaves
    rw [show ((n + 1 : Nat) : Int) - 1 = n by omega, linesBack_succ line] at ran
    obtain ⟨w, π, first, rest⟩ := exec_bind_eq_ok_iff.mp ran
    obtain ⟨c', rfl, same⟩ := goes first
    exact ⟨c', π, ρ, v, same, grows, rest, leaves⟩
  cases step with
  | pass line spared =>
    refine .inl ⟨by simp, onward line ran (fun first => ?_) leaves⟩
    rcases arrayLine_cases first with ⟨c₁, some, same', -⟩ | ⟨c₁, -, move | ⟨_, row⟩⟩ | ⟨-, stops, -⟩
    · exact ⟨c₁, some, same'.trans same⟩
    · exact absurd (by rw [move, same]; rfl) spared.1
    · exact absurd (by rw [row, same]; rfl) spared.1
    · exact absurd (same ▸ spared) stops
  | carry line moves =>
    dsimp only at same
    rw [Moves, ← same] at moves
    refine .inl ⟨by simp, onward line ran (fun first => ?_) leaves⟩
    rcases arrayLine_cases first with ⟨_, -, -, spared, -⟩ | ⟨c₁, some, draws⟩ | ⟨-, -, never⟩
    · exact absurd (by rw [moves]; rfl) spared
    · exact ⟨c₁, some, by simpa [Draws, moves, eq_comm] using draws⟩
    · exact absurd (.inl moves) (never _)
  | @pred _ b p block before found edge found' entered =>
    have none : linesBack x b ((0 : Nat) - 1) = [] := by simp [linesBack]
    rw [none] at ran
    cases ran
    have inside : p ∈ neighbours x b (·.preds) := by simpa [neighbours, found] using edge
    exact .inr ⟨rfl, entered, rfl, leaves c rfl p inside, before, found', rfl⟩

/-- A store above the place is put into the slice. -/
theorem Scans.store {visited : List Nat} {register value position : Register} {b : BlockId} {n : Nat}
    (scans : Scans x r τ visited ⟨register, b, n + 1⟩) (line : (x.index.sites b)[n]? = some s)
    (stores : s.operation = .arrayPut value register position) : s.id ∈ τ.work.graph.lines := by
  obtain ⟨c, σ, ρ, v, same, grows, ran, -⟩ := scans
  rw [show ((n + 1 : Nat) : Int) - 1 = n by omega, linesBack_succ line] at ran
  obtain ⟨w, π, first, rest⟩ := exec_bind_eq_ok_iff.mp ran
  have later : Grows π ρ := by
    refine Develops.grows ?_ rest
    split
    · exact develops_arrayLines ..
    · exact .pure _
  exact (later.trans grows).lines.subset (mem_lines_of_arrayPut (by rw [stores, same]) first)

/-! ### The walk -/

/-- The place that a frame is scanned from. -/
def ArrayFrame.place (frame : ArrayFrame) : Place :=
  ⟨frame.cursor.register, frame.block, (frame.index + 1).toNat⟩

/-- A way back from the start leads to the place, which is inside its block. -/
structure Arrives (x : Index) (start place : Place) : Prop where
  method : place.block.method = start.block.method
  bound : place.above ≤ (x.sites place.block).length
  path : ArrayPath x Draws start place

section Walk

variable {start : Place} {graph : BlockGraph.Graph}

/-- The predecessors of a block are blocks. -/
theorem lt_of_mem_neighbours (faithful : x.index.Faithful) {b : BlockId} (isGraph : x.index.graph? b.method = some graph)
    {i : Nat} (edge : i ∈ neighbours x b (·.preds)) : i < graph.blocks.size := by
  cases found : x.index.block? b with
  | none => simp [neighbours, found] at edge
  | some block =>
    obtain ⟨m, g, flow, -, isGraph', has, atIndex⟩ := faithful.exists_hasFlow found
    cases isGraph.symm.trans isGraph'
    have edge' : i ∈ block.preds := by simpa [neighbours, found] using edge
    exact has.partitions.closed block (Array.mem_of_getElem? atIndex) i (.inr edge')

/-- From the top of a block the array comes to the end of every predecessor, the block of the read apart. -/
theorem arrives_of_top (faithful : x.index.Faithful) (isGraph : x.index.graph? start.block.method = some graph)
    {register : Register} {b : BlockId} {i : Nat} (method : b.method = start.block.method)
    (top : ArrayPath x.index Draws start ⟨register, b, 0⟩)
    (edge : i ∈ neighbours x b (·.preds)) (away : i ≠ start.block.index) :
    ∃ block, x.index.block? ⟨b.method, i⟩ = some block ∧
      Arrives x.index start ⟨register, ⟨b.method, i⟩, block.lines.length⟩ := by
  obtain ⟨block, found, edge'⟩ : ∃ block, x.index.block? b = some block ∧ i ∈ block.preds := by
    cases found : x.index.block? b with
    | none => simp [neighbours, found] at edge
    | some block => exact ⟨block, rfl, by simpa [neighbours, found] using edge⟩
  have bound := lt_of_mem_neighbours faithful (by rw [method]; exact isGraph) edge
  have found' : x.index.block? ⟨b.method, i⟩ = some graph.blocks[i] := by
    simp only [Index.block?, method, isGraph, Option.bind_eq_bind, Option.bind_some]
    exact Array.getElem?_eq_getElem bound
  have other : (⟨b.method, i⟩ : BlockId) ≠ start.block := fun same => away (congrArg BlockId.index same)
  exact ⟨_, found', method, by rw [faithful.length_sites found'], top.tail (.pred found edge' found' other)⟩

/-- Every frame in the queue is scanned, and so is every block that the walk enters, from its end. -/
theorem scans_of_walkArray (faithful : x.index.Faithful) (isGraph : x.index.graph? start.block.method = some graph)
    {f : Frontier} {queue : List ArrayFrame} (ample : f.Ample graph.blocks.size)
    (home : start.block.index ∈ f.visited) (arrives : ∀ frame ∈ queue, Arrives x.index start frame.place)
    (ran : exec (walkArray x r f queue) σ = (.ok (), τ)) :
    ∃ visited, (∀ i ∈ f.visited, i ∈ visited) ∧ (∀ frame ∈ queue, Scans x r τ visited frame.place) ∧
      ∀ i ∈ visited, i ∈ f.visited ∨ ∃ place block, place.block = ⟨start.block.method, i⟩ ∧
        x.index.block? place.block = some block ∧ place.above = block.lines.length ∧
        Arrives x.index start place ∧ Scans x r τ visited place := by
  induction f, queue using walkArray.induct x generalizing σ with
  | case1 f => exact ⟨f.visited, fun _ member => member, fun _ member => absurd member List.not_mem_nil, fun _ => .inl⟩
  | case2 f frame rest stay onward =>
    have others : ∀ frame ∈ rest, Arrives x.index start frame.place :=
      fun other member => arrives other (List.mem_cons_of_mem _ member)
    have here := arrives frame List.mem_cons_self
    rw [walkArray] at ran
    obtain ⟨left, π, scanned, ran⟩ := exec_bind_eq_ok_iff.mp ran
    rw [linesBack_toNat] at scanned
    have inFrame {visited : List Nat} (grows : Grows π τ) (leaves : ∀ c', left = some c' →
        ∀ i ∈ neighbours x frame.block (·.preds), i ∈ visited) : Scans x r τ visited frame.place :=
      ⟨frame.cursor, σ, π, left, rfl, grows, scanned, leaves⟩
    cases left with
    | none =>
      obtain ⟨visited, kept, scans, entered⟩ := stay ample home others ran
      refine ⟨visited, kept, fun other member => ?_, entered⟩
      rcases List.mem_cons.mp member with rfl | member
      · exact inFrame ((develops_walkArray ..).grows ran) (by simp)
      · exact scans other member
    | some c =>
      obtain ⟨_, π', called, ran⟩ := exec_bind_eq_ok_iff.mp ran
      have grows := ((develops_callersAtEntry ..).grows called).trans ((develops_walkArray ..).grows ran)
      have method : frame.block.method = start.block.method := here.method
      have inside : ∀ i ∈ neighbours x frame.block (·.preds), i < graph.blocks.size :=
        fun i edge => lt_of_mem_neighbours faithful (by rw [method]; exact isGraph) edge
      obtain ⟨ample', visits, enters⟩ := ample.enter inside
      have top : ArrayPath x.index Draws start ⟨c.register, frame.block, 0⟩ :=
        here.path.trans (arrayPath_of_arrayLines here.bound scanned)
      have news : ∀ i ∈ (f.enter (neighbours x frame.block (·.preds))).2, ∃ block,
          x.index.block? ⟨frame.block.method, i⟩ = some block ∧
            Arrives x.index start ⟨c.register, ⟨frame.block.method, i⟩, block.lines.length⟩ := by
        intro i member
        obtain ⟨edge, new⟩ := (enters i).mp member
        exact arrives_of_top faithful isGraph method top edge fun same => new (same ▸ home)
      have arrives' : ∀ other ∈ rest ++ (f.enter (neighbours x frame.block (·.preds))).2.map (fun i =>
          (⟨⟨frame.block.method, i⟩, lastPosition x ⟨frame.block.method, i⟩, c⟩ : ArrayFrame)),
          Arrives x.index start other.place := by
        intro other member
        rcases List.mem_append.mp member with member | member
        · exact others other member
        · obtain ⟨i, new, rfl⟩ := List.mem_map.mp member
          obtain ⟨block, found, arrived⟩ := news i new
          simpa [ArrayFrame.place, lastPosition, found] using arrived
      obtain ⟨visited, kept, scans, entered⟩ := onward c ample' ((visits _).mpr (.inl home)) arrives' ran
      refine ⟨visited, fun i member => kept i ((visits i).mpr (.inl member)), fun other member => ?_, fun i member => ?_⟩
      · rcases List.mem_cons.mp member with rfl | member
        · refine inFrame grows fun _ _ i edge => kept i ((visits i).mpr ?_)
          by_cases old : i ∈ f.visited
          · exact .inl old
          · exact .inr ((enters i).mpr ⟨edge, old⟩)
        · exact scans other (List.mem_append_left _ member)
      · rcases entered i member with seen | later
        · refine ((visits i).mp seen).imp_right fun new => ?_
          obtain ⟨block, found, arrived⟩ := news i new
          have scanned := scans _ (List.mem_append_right _ (List.mem_map.mpr ⟨i, new, rfl⟩))
          exact ⟨_, block, by rw [method], found, rfl, arrived, by
            simpa [ArrayFrame.place, lastPosition, found] using scanned⟩
        · exact .inr later

/-- On a way back over copies that no other way crosses with another register, array mode keeps up. -/
theorem exists_scans_of_storePath (start : Place) (faithful : x.index.Faithful)
    (isGraph : x.index.graph? start.block.method = some graph)
    (deep : (graph.blocks.size : Int) ≤ x.options.arrayDepth) (here : start.block.index < graph.blocks.size)
    (bound : start.above ≤ (x.index.sites start.block).length) (tracks : c.register = start.register)
    (ran : exec (arrayOrigin x r c start.block ((start.above : Int) - 1)) σ = (.ok (), τ)) {place : Place}
    (path : StorePath x.index start place) : ∃ visited, Scans x r τ visited place := by
  have isPlace : (⟨start.block, (start.above : Int) - 1, c⟩ : ArrayFrame).place = start := by
    simp [ArrayFrame.place, tracks]
  obtain ⟨visited, -, scans, entered⟩ := scans_of_walkArray (f := .start x.options.arrayDepth start.block.index)
    faithful isGraph (.start here deep) (by simp [Frontier.start])
    (fun frame only => by rw [List.mem_singleton.mp only, isPlace]; exact ⟨rfl, bound, .refl⟩) ran
  refine ⟨visited, ?_⟩
  suffices both : place.block.method = start.block.method ∧ Scans x r τ visited place from both.2
  induction path with
  | refl => exact ⟨rfl, by simpa [isPlace] using scans⟩
  | @tail before next _ way ih =>
    obtain ⟨step, sole⟩ := way
    obtain ⟨method, scanned⟩ := ih
    rcases scanned.step step with ⟨-, goesOn⟩ | ⟨top, away, method', seen, block, found, length⟩
    · refine ⟨?_, goesOn⟩
      cases step with
      | pass => exact method
      | carry => exact method
      | pred => exact method
    · -- the block was entered from its end, with the only register that a way back comes there with
      have method'' := method'.trans method
      have other : next.block.index ≠ start.block.index := by
        intro same
        refine away ?_
        cases isNext : next.block
        cases isStart : start.block
        simp_all
      rcases entered _ seen with here | ⟨place, block', isBlock, found', length', arrives, scans'⟩
      · exact absurd (by simpa [Frontier.start] using here) other
      · have same : place.block = next.block := by rw [isBlock, ← method'']
        rw [same, found] at found'
        cases found'
        have isRegister := sole top place.register (by rw [← same, length, ← length']; exact arrives.path)
        have isNext : place = next := by
          cases place
          cases next
          simp_all
        exact ⟨method'', isNext ▸ scans'⟩

end Walk

end SmaliTrace.Slice
