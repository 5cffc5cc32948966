import SmaliTrace.Proofs.Slice.ArrayWalk

/-!
The tops of blocks that an item comes to, said without any search. A register search climbs the lines of its block
with one register; array mode climbs block after block, and enters a block at most once, with the register that it
comes there with first.
-/
namespace SmaliTrace.Slice
open SmaliTrace.Smali SmaliTrace.ClassFile

variable {x : Context} {r : RegisterSearch} {c c' : Cursor} {s : Site} {σ τ : State} {v : Option Cursor}
  {register : Register} {b : BlockId}

/-! ### One line -/

/-- The register that a register search goes on with above the line, if it goes on. -/
def followed? (register : Register) (s : Site) : Option Register :=
  if Spares s.operation register then some register
  else if s.operation.result? = some register ∧ s.operation.kind ∈ carrying then s.operation.sources.head?
  else none

/-- The register that array mode goes on with above the line, if it goes on. -/
def drawn? (array : Register) (s : Site) : Option Register :=
  match s.operation with
  | .move d source | .arrayGet d source _ => some (if d = array then source else array)
  | op => if Spares op array then some array else none

/-- A search stops at a line that neither spares the register nor carries its value. -/
theorem stops_of_backwardLine (touched : ¬ Spares s.operation c.register)
    (carries : ¬ (s.operation.result? = some c.register ∧ s.operation.kind ∈ carrying))
    (ran : exec (backwardLine x r c s) σ = (.ok v, τ)) : v = none := by
  have stopped : ∀ {a : SearchM Unit} {ρ : State}, exec (do a; pure none) ρ = (.ok v, τ) → v = none := by
    intro a ρ ran
    obtain ⟨_, _, _, last⟩ := exec_bind_eq_ok_iff.mp ran
    cases last
    rfl
  by_cases defines : s.operation.result? = some c.register
  · rw [backwardLine_eq_of_defines defines, backwardDefinition] at ran
    cases isOperation : s.operation with
    | move _ _ | unaryMath _ _ | literalMath _ _ _ | inPlaceMath _ _ | binaryMath _ _ _ =>
      exact absurd ⟨defines, by simp [isOperation, Operation.kind, carrying]⟩ carries
    | arrayGet _ _ _ =>
      rw [isOperation] at ran
      obtain ⟨_, _, _, ran⟩ := exec_bind_eq_ok_iff.mp ran
      exact stopped ran
    | _ =>
      rw [isOperation] at ran
      exact stopped ran
  · have fills : ∃ label, s.operation = .fillArrayData c.register label := by
      by_contra never
      exact touched ⟨defines, fun label isFill => never ⟨label, isFill⟩⟩
    obtain ⟨label, isFill⟩ := fills
    simp only [backwardLine, isFill, if_true] at ran
    exact stopped ran

theorem followed?_of_backwardLine (ran : exec (backwardLine x r c s) σ = (.ok v, τ)) :
    followed? c.register s = v.map Cursor.register := by
  unfold followed?
  by_cases spared : Spares s.operation c.register
  · obtain ⟨c', rfl, same⟩ := register_of_backwardLine spared ran
    rw [if_pos spared, Option.map_some, same]
  · rw [if_neg spared]
    by_cases carries : s.operation.result? = some c.register ∧ s.operation.kind ∈ carrying
    · obtain ⟨c', rfl, head⟩ := head_of_backwardLine carries.1 carries.2 ran
      rw [if_pos carries, Option.map_some, head]
    · rw [if_neg carries, stops_of_backwardLine spared carries ran, Option.map_none]

theorem drawn?_of_arrayLine (ran : exec (arrayLine x r c s) σ = (.ok v, τ)) :
    drawn? c.register s = v.map Cursor.register := by
  unfold drawn?
  rcases arrayLine_cases ran with ⟨c', rfl, same, spared⟩ | ⟨c', rfl, move | ⟨_, row⟩⟩ | ⟨rfl, touched, never⟩
  · split
    · next d source isOperation =>
      have other : d ≠ c.register := by simpa [isOperation, Operation.result?] using spared.1
      rw [if_neg other, Option.map_some, same]
    · next d source position isOperation =>
      have other : d ≠ c.register := by simpa [isOperation, Operation.result?] using spared.1
      rw [if_neg other, Option.map_some, same]
    · rw [if_pos spared, Option.map_some, same]
  · rw [move]
    simp
  · rw [row]
    simp
  · split
    · next d source isOperation =>
      have other : d ≠ c.register := by
        rintro rfl
        exact never source (.inl isOperation)
      exact absurd ⟨by simpa [isOperation, Operation.result?] using other, by simp [isOperation]⟩ touched
    · next d source position isOperation =>
      have other : d ≠ c.register := by
        rintro rfl
        exact never source (.inr ⟨position, isOperation⟩)
      exact absurd ⟨by simpa [isOperation, Operation.result?] using other, by simp [isOperation]⟩ touched
    · rw [if_neg touched, Option.map_none]

/-! ### One block -/

theorem followed?_of_backwardLines {sites : List Site} (ran : exec (backwardLines x r c sites) σ = (.ok v, τ)) :
    sites.foldlM followed? c.register = v.map Cursor.register := by
  induction sites generalizing c σ with
  | nil =>
    cases ran
    rfl
  | cons s rest ih =>
    obtain ⟨w, ρ, first, later⟩ := exec_bind_eq_ok_iff.mp ran
    rw [List.foldlM_cons, followed?_of_backwardLine first]
    cases w with
    | none =>
      cases later
      rfl
    | some c' => exact ih later

/-- A search that goes over lines one after the other comes to those in the middle. -/
theorem exists_exec_of_append {before sites : List Site} (climbs : before.foldlM followed? c.register = some register)
    (ran : exec (backwardLines x r c (before ++ sites)) σ = (.ok v, τ)) :
    ∃ c' ρ, c'.register = register ∧ exec (backwardLines x r c' sites) ρ = (.ok v, τ) := by
  induction before generalizing c σ with
  | nil => exact ⟨c, σ, Option.some.inj climbs, ran⟩
  | cons s before ih =>
    obtain ⟨w, ρ, first, later⟩ := exec_bind_eq_ok_iff.mp ran
    rw [List.foldlM_cons, followed?_of_backwardLine first] at climbs
    cases w with
    | none => simp at climbs
    | some c' => exact ih climbs later

theorem drawn?_of_arrayLines {sites : List Site} (ran : exec (arrayLines x r c sites) σ = (.ok v, τ)) :
    sites.foldlM drawn? c.register = v.map Cursor.register := by
  induction sites generalizing c σ with
  | nil =>
    cases ran
    rfl
  | cons s rest ih =>
    obtain ⟨w, ρ, first, later⟩ := exec_bind_eq_ok_iff.mp ran
    rw [List.foldlM_cons, drawn?_of_arrayLine first]
    cases w with
    | none =>
      cases later
      rfl
    | some c' => exact ih later

/-! ### Array mode -/

/-- The register that an array is held by at the top of the block, if array mode comes there from the place. -/
def risen? (x : Context) (place : Place) : Option Register :=
  (linesBack x place.block ((place.above : Int) - 1)).foldlM drawn? place.register

/-- The end of a block, with a register. -/
def endOf (x : Context) (b : BlockId) (register : Register) : Place := ⟨register, b, (lastPosition x b + 1).toNat⟩

/-- Array mode comes to the top of the block with the register, on its way back from the queued places. -/
inductive Rises (x : Context) : Frontier → List Place → BlockId → Register → Prop
  | here {f : Frontier} {place : Place} {rest : List Place} {register : Register}
      (risen : risen? x place = some register) : Rises x f (place :: rest) place.block register
  | stuck {f : Frontier} {place : Place} {rest : List Place} {b : BlockId} {register : Register}
      (stops : risen? x place = none) (later : Rises x f rest b register) : Rises x f (place :: rest) b register
  | onward {f : Frontier} {place : Place} {rest : List Place} {array : Register} {b : BlockId} {register : Register}
      (risen : risen? x place = some array)
      (later : Rises x (f.enter (neighbours x place.block (·.preds))).1
        (rest ++ (f.enter (neighbours x place.block (·.preds))).2.map fun i => endOf x ⟨place.block.method, i⟩ array)
        b register) :
      Rises x f (place :: rest) b register

theorem risen?_of_arrayLines {frame : ArrayFrame}
    (ran : exec (arrayLines x r frame.cursor (linesBack x frame.block frame.index)) σ = (.ok v, τ)) :
    risen? x frame.place = v.map Cursor.register := by
  rw [linesBack_toNat] at ran
  exact drawn?_of_arrayLines ran

theorem map_place_append (rest : List ArrayFrame) (m : MethodId) (blocks : List Nat) (c : Cursor) :
    (rest ++ blocks.map fun i => (⟨⟨m, i⟩, lastPosition x ⟨m, i⟩, c⟩ : ArrayFrame)).map ArrayFrame.place =
      rest.map ArrayFrame.place ++ blocks.map fun i => endOf x ⟨m, i⟩ c.register := by
  rw [List.map_append, List.map_map]
  rfl

/-- Where array mode comes to the top of a block, it goes on at the callers. -/
theorem Rises.exists_exec {f : Frontier} {places : List Place} (rises : Rises x f places b register)
    {queue : List ArrayFrame} (same : queue.map ArrayFrame.place = places)
    (ran : exec (walkArray x r f queue) σ = (.ok (), τ)) :
    ∃ c σ' ρ, c.register = register ∧ exec (callersAtEntry x r c b) σ' = (.ok (), ρ) ∧ Gains ρ τ := by
  induction rises generalizing queue σ with
  | @here f place rest register risen =>
    obtain ⟨frame, frames, rfl, rfl, -⟩ := List.map_eq_cons_iff.mp same
    rw [walkArray] at ran
    obtain ⟨left, π, scanned, ran⟩ := exec_bind_eq_ok_iff.mp ran
    rw [risen?_of_arrayLines scanned] at risen
    obtain ⟨c, rfl, isRegister⟩ := Option.map_eq_some_iff.mp risen
    obtain ⟨_, ρ, called, ran⟩ := exec_bind_eq_ok_iff.mp ran
    exact ⟨c, π, ρ, isRegister, called, ((develops_walkArray ..).enlists ran).toGains⟩
  | stuck stops _ ih =>
    obtain ⟨frame, frames, rfl, rfl, others⟩ := List.map_eq_cons_iff.mp same
    rw [walkArray] at ran
    obtain ⟨left, π, scanned, ran⟩ := exec_bind_eq_ok_iff.mp ran
    rw [risen?_of_arrayLines scanned, Option.map_eq_none_iff] at stops
    subst stops
    exact ih others ran
  | onward risen _ ih =>
    obtain ⟨frame, frames, rfl, rfl, others⟩ := List.map_eq_cons_iff.mp same
    rw [walkArray] at ran
    obtain ⟨left, π, scanned, ran⟩ := exec_bind_eq_ok_iff.mp ran
    rw [risen?_of_arrayLines scanned] at risen
    obtain ⟨c, rfl, isRegister⟩ := Option.map_eq_some_iff.mp risen
    obtain ⟨_, ρ, called, ran⟩ := exec_bind_eq_ok_iff.mp ran
    refine ih ?_ ran
    rw [map_place_append, others, isRegister]
    rfl

/-! ### One item -/

/-- The item comes to the top of the block with the register: by its own lines, or in array mode, which starts where
its register is read from an element, or at a store to its field. -/
inductive Surfaces (x : Context) : Item → BlockId → Register → Prop
  | climbs {q : RegisterSearch} {register : Register}
      (climbed : (linesBack x q.block q.index).foldlM followed? q.register = some register) :
      Surfaces x (.register q) q.block register
  | row {q : RegisterSearch} {before rest : List Site} {read : Site} {element array position : Register} {b : BlockId}
      {register : Register} (lines : linesBack x q.block q.index = before ++ read :: rest)
      (climbed : before.foldlM followed? q.register = some element)
      (reads : read.operation = .arrayGet element array position)
      (rises : Rises x (.start x.options.arrayDepth read.block) [⟨array, read.blockId, read.position⟩] b register) :
      Surfaces x (.register q) b register
  | stored {c : ContentSearch} {store : Site} {value : Register} {b : BlockId} {register : Register}
      (stores : (store, value) ∈ fieldStores x c.name)
      (rises : Rises x (.start x.options.arrayDepth store.block) [⟨value, store.blockId, store.position⟩] b register) :
      Surfaces x (.content .array c) b register

/-- Array mode starts at the place right above a line. -/
theorem place_start (b : BlockId) (n : Nat) (c : Cursor) :
    [(⟨b, (n : Int) - 1, c⟩ : ArrayFrame)].map ArrayFrame.place = [⟨c.register, b, n⟩] := by
  simp [ArrayFrame.place]

/-- At the top of a block that it comes to, an item goes on at the callers, at its own level. -/
theorem Surfaces.exists_exec {item : Item} (surfaces : Surfaces x item b register) (backward : x.forward = false)
    (ran : exec (item.perform x) σ = (.ok (), τ)) :
    ∃ r c σ' ρ, r.fuzzy = item.level ∧ c.register = register ∧
      exec (callersAtEntry x r c b) σ' = (.ok (), ρ) ∧ Gains ρ τ := by
  cases surfaces with
  | @climbs q register climbed =>
    simp only [Item.perform, searchRegister, backward, Bool.false_eq_true, if_false] at ran
    obtain ⟨v, π, lines, ran⟩ := exec_bind_eq_ok_iff.mp ran
    have top := followed?_of_backwardLines lines
    rw [show q.cursor.register = q.register from rfl, climbed] at top
    obtain ⟨c, rfl, isRegister⟩ := Option.map_eq_some_iff.mp top.symm
    obtain ⟨_, π', -, called⟩ := exec_bind_eq_ok_iff.mp ran
    exact ⟨q, c, π', τ, rfl, isRegister, called, .refl τ⟩
  | @row q before rest read element array position _ _ lines climbed reads rises =>
    simp only [Item.perform, searchRegister, backward, Bool.false_eq_true, if_false] at ran
    obtain ⟨v, π, walked, top⟩ := exec_bind_eq_ok_iff.mp ran
    have after : Enlists π τ := by
      refine Develops.enlists ?_ top
      split
      · exact develops_blockTop ..
      · exact .pure _
    rw [lines] at walked
    obtain ⟨c, π₀, isElement, walked⟩ := exists_exec_of_append climbed walked
    obtain ⟨w, π₁, first, others⟩ := exec_bind_eq_ok_iff.mp walked
    rw [backwardLine_eq_of_defines (by rw [reads, isElement]; rfl), backwardDefinition, reads] at first
    obtain ⟨c', π₂, stepped, first⟩ := exec_bind_eq_ok_iff.mp first
    obtain ⟨_, π₃, origin, last⟩ := exec_bind_eq_ok_iff.mp first
    cases last
    cases others
    have start := place_start read.blockId read.position c'
    rw [register_of_step stepped] at start
    obtain ⟨c'', σ', ρ, isRegister, called, gains⟩ := rises.exists_exec start origin
    exact ⟨q, c'', σ', ρ, rfl, isRegister, called, gains.trans after.toGains⟩
  | @stored q store value _ _ stores rises =>
    simp only [Item.perform, searchContent, backward] at ran
    obtain ⟨_, π, looped, rest⟩ := exec_bind_eq_ok_iff.mp ran
    have after : Enlists π τ := by
      refine Develops.enlists ((Develops.forM fun _ _ => ?_).bind fun _ => ?_) rest
      · exact (develops_step ..).bind fun _ => develops_arrayStores ..
      · split
        · exact develops_foreignField ..
        · exact .pure _
    obtain ⟨σ', π', here, -, later⟩ := exists_edits_of_forM
      (fun _ _ => (develops_step ..).bind fun _ => develops_arrayOrigin ..) looped stores
    obtain ⟨c, π₁, stepped, origin⟩ := exec_bind_eq_ok_iff.mp here
    have start := place_start store.blockId store.position c
    rw [register_of_step stepped] at start
    obtain ⟨c', σ₁, ρ, isRegister, called, gains⟩ := rises.exists_exec start origin
    exact ⟨_, c', σ₁, ρ, rfl, isRegister, called, (gains.trans later.enlists.toGains).trans after.toGains⟩

end SmaliTrace.Slice
