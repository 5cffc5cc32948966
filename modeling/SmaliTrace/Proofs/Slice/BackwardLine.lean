import SmaliTrace.Proofs.Slice.Growth
import SmaliTrace.Proofs.Slice.ValuePath

/-!
What a backward search makes of one line: it passes lines that spare the register, goes on with every
source of a line that carries the value, and keeps the line that the value begins at.
-/
namespace SmaliTrace.Slice
open SmaliTrace.Smali SmaliTrace.ClassFile

variable {x : Context} {r : RegisterSearch} {c c' : Cursor} {s : Site} {σ τ : State} {v : Option Cursor}

/-- The line has a constant, and a node in the graph. -/
def State.Keeps (σ : State) (line : LineId) : Prop := σ.HasConstant line ∧ line ∈ σ.work.graph.lines

theorem State.Keeps.grow {line : LineId} (kept : σ.Keeps line) (grows : Grows σ τ) : τ.Keeps line :=
  ⟨grows.constants line kept.1, grows.lines.subset kept.2⟩

/-- A register search was asked for that starts at the place. -/
def State.Asked (σ : State) (place : Place) : Prop :=
  ItemKey.register place.register place.block ((place.above : Int) - 1) ∈ σ.work.done

theorem State.Asked.grow {place : Place} (asked : σ.Asked place) (grows : Grows σ τ) : τ.Asked place :=
  grows.done _ asked

/-- The search passes the fuzzy check. -/
def State.Fits (σ : State) (r : RegisterSearch) : Prop := σ.work.tooFuzzy r.fuzzy r.offset = false

theorem State.Fits.grow (fits : σ.Fits r) (grows : Grows σ τ) : τ.Fits r :=
  (tooFuzzy_congr grows.maxFuzzy ..).trans fits

/-! ### The steps -/

theorem mem_done_of_admitRegister (fits : σ.Fits r) (ran : exec (admitRegister r) σ = (.ok (), τ)) :
    r.key ∈ τ.work.done := by
  cases ran
  exact mem_done_admitRegister fits

theorem mem_done_of_fork {register : Register} {block : BlockId} {index : Int} (fits : σ.Fits r)
    (ran : exec (fork r c register block index r.fuzzy) σ = (.ok (), τ)) :
    ItemKey.register register block index ∈ τ.work.done :=
  mem_done_of_admitRegister (r := ⟨register, r.field, block, index, r.fuzzy, r.offset, c.origin, register⟩)
    fits ran

theorem register_of_step {line : LineId} {source register : Register}
    (ran : exec (step c line source register) σ = (.ok c', τ)) : c'.register = register := by
  unfold step at ran
  simp only [exec_bind_eq_ok_iff] at ran
  obtain ⟨_, _, _, _, _, _, last⟩ := ran
  cases last
  rfl

/-- A terminal value goes on with the same register, and its line is kept. -/
theorem keeps_of_terminal {line : LineId} {kind : ConstantKind} {value : Text.Octets} {raw : String}
    {fuzzy : Int} (ran : exec (terminal x c line kind value raw fuzzy) σ = (.ok c', τ)) :
    c'.register = c.register ∧ τ.Keeps line := by
  unfold terminal at ran
  simp only [exec_bind_eq_ok_iff] at ran
  obtain ⟨id, ρ₁, added, _, ρ₂, kept, _, ρ₃, produced, last⟩ := ran
  have listed : line ∈ ρ₁.work.graph.lines := by
    cases added
    exact (SliceGraph.lines_addConstant ..).2
  have constant : ρ₂.HasConstant line := by
    cases kept
    exact hasConstant_keep.mpr (.inr rfl)
  have kept₂ : ρ₂.Keeps line := ⟨constant, ((develops_keepConstant _).grows kept).lines.subset listed⟩
  cases last
  exact ⟨rfl, kept₂.grow ((develops_produceIf ..).grows produced)⟩

theorem keeps_of_opcodeValue {value : String} (ran : exec (opcodeValue x r c s value) σ = (.ok (), τ)) :
    τ.Keeps s.id := by
  unfold opcodeValue at ran
  simp only [exec_bind_eq_ok_iff] at ran
  obtain ⟨_, _, ended, last⟩ := ran
  cases last
  exact (keeps_of_terminal ended).2

theorem keeps_of_literalLoad {raw : String} (ran : exec (literalLoad x r c s raw) σ = (.ok (), τ)) :
    τ.Keeps s.id := by
  unfold literalLoad at ran
  split at ran
  · simp at ran
  · simp only [exec_bind_eq_ok_iff] at ran
    obtain ⟨_, _, ended, last⟩ := ran
    cases last
    exact (keeps_of_terminal ended).2

/-! ### Lines that spare the register -/

theorem register_of_copiedFrom {redirect : Redirect}
    (ran : exec (copiedFrom x r c s redirect) σ = (.ok c', τ)) : c'.register = c.register := by
  unfold copiedFrom at ran
  simp only [exec_bind_eq_ok_iff] at ran
  obtain ⟨_, _, _, _, _, stepped, _, _, _, last⟩ := ran
  cases last
  exact register_of_step stepped

theorem register_of_filledByCall {method : MethodRef} {arguments : List Argument}
    (ran : exec (filledByCall x r c s method arguments) σ = (.ok c', τ)) : c'.register = c.register := by
  unfold filledByCall at ran
  split at ran
  · cases ran
    rfl
  · split at ran
    · simp only [exec_bind_eq_ok_iff] at ran
      obtain ⟨_, _, _, last⟩ := ran
      cases last
      rfl
    · exact (keeps_of_terminal ran).1

theorem register_of_backwardCall {method : MethodRef}
    (ran : exec (backwardCall x r c s method) σ = (.ok c', τ)) : c'.register = c.register := by
  unfold backwardCall at ran
  split at ran
  · cases ran
    rfl
  · obtain ⟨arguments, _, _, ran⟩ := exec_bind_eq_ok_iff.mp ran
    split at ran
    · exact register_of_copiedFrom ran
    · dsimp only at ran
      split at ran
      · simp only [exec_bind_eq_ok_iff] at ran
        obtain ⟨_, _, stepped, _, _, _, last⟩ := ran
        cases last
        exact register_of_step stepped
      · exact register_of_filledByCall ran

/-- A line that spares the register is passed. -/
theorem register_of_backwardLine (spared : Spares s.operation c.register)
    (ran : exec (backwardLine x r c s) σ = (.ok v, τ)) : ∃ c', v = some c' ∧ c'.register = c.register := by
  have idle : s.operation.defines c.register = false := by simpa [Operation.defines] using spared.1
  have passed : ∀ {ρ : State}, exec (pure (some c) : SearchM (Option Cursor)) ρ = (.ok v, τ) →
      ∃ c', v = some c' ∧ c'.register = c.register := by
    intro ρ same
    cases same
    exact ⟨c, rfl, rfl⟩
  unfold backwardLine at ran
  simp only [idle, Bool.false_eq_true, if_false] at ran
  split at ran
  iterate 2
    split at ran
    · exact passed ran
    · simp at ran
  · next array label isFill =>
    split at ran
    · next same => exact absurd (same ▸ isFill) (spared.2 label)
    · exact passed ran
  · split at ran
    · simp only [exec_bind_eq_ok_iff] at ran
      obtain ⟨c', _, stepped, _, _, _, last⟩ := ran
      cases last
      exact ⟨c', rfl, register_of_step stepped⟩
    · exact passed ran
  · obtain ⟨c', called, rfl⟩ := exec_map_eq_ok_iff.mp ran
    exact ⟨c', rfl, register_of_backwardCall called⟩
  · exact passed ran

/-! ### Lines that define the register -/

/-- The search goes on with every source: with one of them itself, and by a request for the others. -/
def Continues (τ : State) (s : Site) (v : Option Cursor) (sources : List Register) : Prop :=
  ∃ c', v = some c' ∧ ∀ source ∈ sources, source = c'.register ∨ τ.Asked ⟨source, s.blockId, s.position⟩

theorem continues_of_step {source : Register}
    (ran : exec (some <$> step c s.id c.register source) σ = (.ok v, τ)) : Continues τ s v [source] := by
  obtain ⟨c', stepped, rfl⟩ := exec_map_eq_ok_iff.mp ran
  refine ⟨c', rfl, fun other member => .inl ?_⟩
  rw [register_of_step stepped]
  exact List.mem_singleton.mp member

theorem continues_of_backwardMath {left right : Register} (fits : σ.Fits r)
    (ran : exec (backwardMath r c s left right) σ = (.ok v, τ)) : Continues τ s v [left, right] := by
  obtain ⟨c', ρ, stepped, ran⟩ := exec_bind_eq_ok_iff.mp ran
  have first := register_of_step stepped
  have fits' := fits.grow ((develops_step ..).grows stepped)
  dsimp only at ran
  split at ran
  · obtain ⟨_, _, forked, last⟩ := exec_bind_eq_ok_iff.mp ran
    cases last
    refine ⟨c', rfl, fun source member => ?_⟩
    rcases List.mem_cons.mp member with rfl | member
    · exact .inl first.symm
    · rw [List.mem_singleton.mp member]
      exact .inr (mem_done_of_fork fits' forked)
  · next same =>
    cases ran
    refine ⟨c', rfl, fun source member => .inl ?_⟩
    rw [first]
    simp only [ne_eq, Decidable.not_not] at same
    simpa [same] using member

theorem backwardLine_eq_of_defines (defines : s.operation.result? = some c.register) :
    backwardLine x r c s = backwardDefinition x r c s := by
  have busy : s.operation.defines c.register = true := by simpa [Operation.defines] using defines
  rw [backwardLine, if_pos busy]

/-- A line that carries the value hands over to its sources. -/
theorem continues_of_backwardLine (fits : σ.Fits r) (defines : s.operation.result? = some c.register)
    (carries : s.operation.kind ∈ carrying) (ran : exec (backwardLine x r c s) σ = (.ok v, τ)) :
    Continues τ s v s.operation.sources := by
  rw [backwardLine_eq_of_defines defines, backwardDefinition] at ran
  cases isOperation : s.operation with
  | move _ source | unaryMath _ source =>
    rw [isOperation] at ran
    exact continues_of_step ran
  | literalMath _ source raw =>
    rw [isOperation] at ran
    obtain ⟨c', ρ, stepped, ran⟩ := exec_bind_eq_ok_iff.mp ran
    split at ran
    · simp at ran
    · obtain ⟨_, _, _, last⟩ := exec_bind_eq_ok_iff.mp ran
      cases last
      refine ⟨c', rfl, fun other member => .inl ?_⟩
      rw [register_of_step stepped]
      exact List.mem_singleton.mp member
  | inPlaceMath _ _ | binaryMath _ _ _ =>
    rw [isOperation] at ran
    exact continues_of_backwardMath fits ran
  | _ => simp [isOperation, Operation.kind, carrying] at carries

/-- A line that the value begins at is kept, and nothing is left to follow. -/
theorem keeps_of_backwardLine (defines : s.operation.result? = some c.register)
    (makes : s.operation.kind ∈ originating) (ran : exec (backwardLine x r c s) σ = (.ok v, τ)) :
    v = none ∧ τ.Keeps s.id := by
  have opcode : ∀ {value : String}, exec (do opcodeValue x r c s value; pure none) σ = (.ok v, τ) →
      v = none ∧ τ.Keeps s.id := by
    intro value ran
    obtain ⟨_, _, valued, last⟩ := exec_bind_eq_ok_iff.mp ran
    cases last
    exact ⟨rfl, keeps_of_opcodeValue valued⟩
  rw [backwardLine_eq_of_defines defines, backwardDefinition] at ran
  cases isOperation : s.operation with
  | constLiteral _ raw =>
    rw [isOperation] at ran
    obtain ⟨_, _, loaded, last⟩ := exec_bind_eq_ok_iff.mp ran
    cases last
    exact ⟨rfl, keeps_of_literalLoad loaded⟩
  | constClass _ _ | newInstance _ _ | newArray _ _ _ | instanceOf _ _ _ | arrayLength _ _ | compare _ _ _
  | moveException _ =>
    rw [isOperation] at ran
    exact opcode ran
  | _ => simp [isOperation, Operation.kind, originating] at makes

end SmaliTrace.Slice
