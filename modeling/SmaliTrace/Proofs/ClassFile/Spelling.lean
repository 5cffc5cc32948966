import SmaliTrace.Proofs.ClassFile.Reading
import SmaliTrace.Proofs.ClassFile.Slots

/-!
The spelling of registers in a method. Every slot of a frame has one name of its own, a `v` name up to the parameters
and a `p` name from there on, and registers are respelled towards it. Two spellings of one slot come to the same name
if both are regular; one that is not, with leading zeros or a sign, is left as it is and is the name of nothing else.
-/
namespace SmaliTrace.Smali

/-- The register that a `.local` names is one of its operands. -/
theorem Operation.localRegister_mem (op : Operation) : op.localRegister ∈ op.registers ∨ op.localRegister = "" := by
  cases op <;> simp [localRegister, registers]

end SmaliTrace.Smali

namespace SmaliTrace.ClassFile
open SmaliTrace.Smali

namespace Method

/-- The slot of the parameter with the lowest one. -/
def paramBase (m : Method) : Int := m.registers - m.paramSlots

/-- The slot that a register denotes: `v` registers count from the start of the frame, `p` registers from the first
parameter. -/
def slot? (m : Method) (r : Register) : Option Int :=
  (splitRegister? r.toList).map fun (letter, n) => if letter = 'p' then m.paramBase + n else n

/-- The slot is one of the frame. -/
def InFrame (m : Method) (slot : Int) : Prop := 0 ≤ slot ∧ slot < m.registers

/-- The method has a frame, counted in a word, with room for its parameters. -/
structure HasFrame (m : Method) : Prop where
  isWord : Number.IsWord m.registers
  some : 0 < m.registers
  room : m.paramSlots ≤ m.registers

/-- The name of a slot. -/
def spelling (m : Method) (slot : Int) : Register :=
  if m.paramBase ≤ slot then register 'p' (slot - m.paramBase) else register 'v' slot

/-- The register has the usual spelling of a letter and a number that is not negative, or it is any `v` spelling of a
parameter. -/
def Regular (m : Method) (r : Register) : Prop :=
  ∃ letter n, splitRegister? r.toList = some (letter, n) ∧
    (0 ≤ n ∧ r = register letter n ∨ letter = 'v' ∧ m.paramBase ≤ n)

variable {m : Method} {r r₁ r₂ : Register} {slot slot₁ slot₂ : Int}

/-! ### Respelling -/

/-- A register that has been respelled stays as it is. -/
theorem canonical_canonical (m : Method) (r : Register) : m.canonical (m.canonical r) = m.canonical r := by
  have respelled : m.canonical r = r ∨ ∃ n, m.canonical r = register 'p' n := by
    unfold canonical
    repeat' split
    all_goals first
      | exact .inl rfl
      | skip
    dsimp only
    split
    · exact .inr ⟨_, rfl⟩
    · exact .inl rfl
  rcases respelled with same | ⟨n, same⟩
  · rw [same, same]
  · rw [same, canonical_of_toList_p (toList_register 'p' n)]

theorem canonical_empty (m : Method) : m.canonical "" = "" := by
  unfold canonical
  split <;> rfl

/-- What a register denotes, by its letter. -/
theorem exists_split_of_slot? (denotes : m.slot? r = some slot) :
    splitRegister? r.toList = some ('p', slot - m.paramBase) ∨ splitRegister? r.toList = some ('v', slot) := by
  obtain ⟨⟨letter, n⟩, split, isSlot⟩ := Option.map_eq_some_iff.mp denotes
  obtain ⟨-, -, isV | isP, -⟩ := eq_cons_of_splitRegister? split
  · subst isV
    exact .inr (split.trans (by simpa using isSlot))
  · subst isP
    have isSlot : m.paramBase + n = slot := by simpa using isSlot
    exact .inl (split.trans (by rw [show n = slot - m.paramBase by omega]))

section Frame

variable (frame : m.HasFrame)
include frame

theorem HasFrame.paramBase_bounds : 0 ≤ m.paramBase ∧ m.paramBase ≤ m.registers := by
  have := frame.room
  unfold paramBase
  omega

/-- A `v` name is respelled if it is that of a parameter. -/
theorem canonical_of_split_v (split : splitRegister? r.toList = some ('v', slot)) (inside : m.InFrame slot) :
    m.canonical r = if m.paramBase ≤ slot then register 'p' (slot - m.paramBase) else r := by
  obtain ⟨digits, isText, -, read⟩ := eq_cons_of_splitRegister? split
  obtain ⟨low, high⟩ := frame.paramBase_bounds
  have isWord := frame.isWord
  have some := frame.some
  simp only [InFrame, Number.IsWord] at inside isWord
  have isBase : Number.wrap (m.registers - m.paramSlots) = m.paramBase := by
    unfold paramBase at low ⊢
    exact Number.wrap_eq (by omega) (by omega)
  unfold canonical
  rw [if_neg (by omega), isText]
  simp only [read, isBase]
  split
  · rw [Number.wrap_eq (by omega) (by omega)]
  · rfl

/-- The name of a slot denotes it, and is regular. -/
theorem spelling_denotes (inside : m.InFrame slot) :
    m.slot? (m.spelling slot) = some slot ∧ m.Regular (m.spelling slot) := by
  obtain ⟨low, high⟩ := frame.paramBase_bounds
  have isWord := frame.isWord
  simp only [InFrame, Number.IsWord] at inside isWord
  unfold spelling
  split
  · have number : Number.IsWord (slot - m.paramBase) := ⟨by omega, by omega⟩
    have split := splitRegister?_register (.inr rfl) number
    refine ⟨?_, _, _, split, .inl ⟨by omega, rfl⟩⟩
    rw [slot?, split, Option.map_some]
    exact congrArg some (by simp only [if_true]; omega)
  · have number : Number.IsWord slot := ⟨by omega, by omega⟩
    have split := splitRegister?_register (.inl rfl) number
    refine ⟨?_, _, _, split, .inl ⟨inside.1, rfl⟩⟩
    rw [slot?, split, Option.map_some]
    rfl

theorem spelling_injective (inside₁ : m.InFrame slot₁) (inside₂ : m.InFrame slot₂)
    (same : m.spelling slot₁ = m.spelling slot₂) : slot₁ = slot₂ := by
  have denotes := (spelling_denotes frame inside₁).1
  rw [same, (spelling_denotes frame inside₂).1] at denotes
  exact (Option.some.inj denotes).symm

/-- A regular spelling comes to the name of the slot. -/
theorem canonical_of_regular (denotes : m.slot? r = some slot) (inside : m.InFrame slot) (regular : m.Regular r) :
    m.canonical r = m.spelling slot := by
  obtain ⟨letter, n, isSplit, isRegular⟩ := regular
  rcases exists_split_of_slot? denotes with split | split
  · -- a `p` name, which is that of its slot as its number is not negative
    obtain ⟨rfl, rfl⟩ : letter = 'p' ∧ n = slot - m.paramBase := by simpa using isSplit.symm.trans split
    obtain ⟨low, same⟩ : 0 ≤ slot - m.paramBase ∧ r = register 'p' (slot - m.paramBase) := by simpa using isRegular
    rw [canonical_of_splitRegister? split, spelling, if_pos (by omega), same]
  · obtain ⟨rfl, rfl⟩ : letter = 'v' ∧ n = slot := by simpa using isSplit.symm.trans split
    rw [canonical_of_split_v frame split inside, spelling]
    split
    · rfl
    · exact isRegular.elim And.right fun isParam => absurd isParam.2 ‹_›

/-- A spelling that is not regular stays as it is. -/
theorem canonical_of_not_regular (denotes : m.slot? r = some slot) (inside : m.InFrame slot)
    (irregular : ¬ m.Regular r) : m.canonical r = r := by
  rcases exists_split_of_slot? denotes with split | split
  · exact canonical_of_splitRegister? split
  · rw [canonical_of_split_v frame split inside, if_neg]
    exact fun isParam => irregular ⟨'v', slot, split, .inr ⟨rfl, isParam⟩⟩

/-- Two registers of the frame come to the same name if they denote one slot and are the same already, or both
regular. -/
theorem canonical_eq_iff (denotes₁ : m.slot? r₁ = some slot₁) (denotes₂ : m.slot? r₂ = some slot₂)
    (inside₁ : m.InFrame slot₁) (inside₂ : m.InFrame slot₂) :
    m.canonical r₁ = m.canonical r₂ ↔ slot₁ = slot₂ ∧ (r₁ = r₂ ∨ m.Regular r₁ ∧ m.Regular r₂) := by
  -- an irregular spelling is no name of a slot
  have apart {r r' : Register} {slot slot' : Int} (denotes : m.slot? r = some slot) (inside : m.InFrame slot)
      (irregular : ¬ m.Regular r) (denotes' : m.slot? r' = some slot') (inside' : m.InFrame slot')
      (regular' : m.Regular r') : m.canonical r ≠ m.canonical r' := by
    rw [canonical_of_not_regular frame denotes inside irregular, canonical_of_regular frame denotes' inside' regular']
    rintro rfl
    exact irregular (spelling_denotes frame inside').2
  by_cases regular₁ : m.Regular r₁ <;> by_cases regular₂ : m.Regular r₂
  · rw [canonical_of_regular frame denotes₁ inside₁ regular₁, canonical_of_regular frame denotes₂ inside₂ regular₂]
    exact ⟨fun same => ⟨spelling_injective frame inside₁ inside₂ same, .inr ⟨regular₁, regular₂⟩⟩,
      fun same => congrArg m.spelling same.1⟩
  · refine iff_of_false (apart denotes₂ inside₂ regular₂ denotes₁ inside₁ regular₁).symm ?_
    rintro ⟨-, rfl | both⟩
    · exact regular₂ regular₁
    · exact regular₂ both.2
  · refine iff_of_false (apart denotes₁ inside₁ regular₁ denotes₂ inside₂ regular₂) ?_
    rintro ⟨-, rfl | both⟩
    · exact regular₁ regular₂
    · exact regular₁ both.1
  · rw [canonical_of_not_regular frame denotes₁ inside₁ regular₁,
      canonical_of_not_regular frame denotes₂ inside₂ regular₂]
    constructor
    · rintro rfl
      exact ⟨Option.some.inj (denotes₁.symm.trans denotes₂), .inl rfl⟩
    · rintro ⟨-, same | both⟩
      · exact same
      · exact absurd both.1 regular₁

end Frame

end Method

/-- A finished method names every register by its respelling. -/
theorem OpenMethod.canonical_of_finish {o : OpenMethod} {l : CodeLine} (isLine : l ∈ o.finish.lines) :
    (∀ r ∈ l.operation.registers, o.finish.canonical r = r) ∧
      o.finish.canonical l.operation.localRegister = l.operation.localRegister := by
  obtain ⟨m, sized⟩ : ∃ m, (if 0 ≤ o.locals then { o.method with
    registers := Number.wrap (o.locals + o.method.paramSlots) } else o.method) = m := ⟨_, rfl⟩
  have lines : o.finish.lines = m.lines.map fun l =>
      { l with instruction.operation := l.operation.mapRegisters m.canonical } := by
    subst sized
    rfl
  have canonical : o.finish.canonical = m.canonical := by
    subst sized
    rfl
  rw [lines] at isLine
  obtain ⟨l', -, rfl⟩ := Array.mem_map.mp isLine
  rw [canonical]
  have registers : ∀ r ∈ (l'.operation.mapRegisters m.canonical).registers, m.canonical r = r := by
    intro r inside
    rw [Operation.registers_mapRegisters] at inside
    obtain ⟨r', -, rfl⟩ := List.mem_map.mp inside
    exact m.canonical_canonical r'
  refine ⟨registers, ?_⟩
  rcases (l'.operation.mapRegisters m.canonical).localRegister_mem with inside | unnamed
  · exact registers _ inside
  · exact (congrArg m.canonical unnamed).trans (m.canonical_empty.trans unnamed.symm)

/-- The spellings of the slots of a method. Registers of the frame come to one name if they denote one slot and are
regular, and respelling does not change the others; what has been respelled stays as it is, and so do the registers of
every line of the method if it has been read. -/
theorem canonical_by_slot (m : Method) :
    (m.HasFrame → ∀ (r₁ r₂ : Register) (slot₁ slot₂ : Int), m.slot? r₁ = some slot₁ → m.slot? r₂ = some slot₂ →
      m.InFrame slot₁ → m.InFrame slot₂ →
      (m.canonical r₁ = m.canonical r₂ ↔ slot₁ = slot₂ ∧ (r₁ = r₂ ∨ m.Regular r₁ ∧ m.Regular r₂))) ∧
    (∀ r : Register, m.canonical (m.canonical r) = m.canonical r) ∧
    ∀ (path text : String) (c : ClassDecl), parse path text = .ok c → m ∈ c.methods → ∀ l ∈ m.lines,
      (∀ r ∈ l.operation.registers, m.canonical r = r) ∧
        m.canonical l.operation.localRegister = l.operation.localRegister := by
  refine ⟨fun frame r₁ r₂ slot₁ slot₂ denotes₁ denotes₂ => Method.canonical_eq_iff frame denotes₁ denotes₂,
    m.canonical_canonical, fun path text c parsed inside l isLine => ?_⟩
  obtain ⟨o, -, rfl⟩ := exists_opened_of_parse parsed m inside
  exact o.canonical_of_finish isLine

/-- A method whose frame has two registers, the second of them a parameter. -/
def twoRegisters : Method :=
  { owner := "LA;", name := "f", params := ["I"], result := "V", flags := [.static], registers := 2 }

theorem hasFrame_twoRegisters : twoRegisters.HasFrame := ⟨by decide, by decide, by decide⟩

/-- The method as a file has it, with an irregular spelling in its body. -/
def twoRegistersText : String := ".class LA;\n.method static f(I)V\n.registers 2\nmove v00, v01\n.end method\n"

theorem canonical_by_slot_twoRegisters :
    twoRegisters.HasFrame ∧ twoRegisters.slot? "v01" = some 1 ∧ twoRegisters.slot? "p0" = some 1 ∧
      twoRegisters.InFrame 1 ∧ twoRegisters.canonical "v01" = twoRegisters.canonical "p0" ∧
      ∃ c, parse "A.smali" twoRegistersText = .ok c ∧ ∃ m ∈ c.methods, ∃ l ∈ m.lines,
        l.operation = .move "v00" "p0" ∧ m.canonical "v00" = "v00" ∧ m.canonical "p0" = "p0" := by
  have second : splitRegister? "v01".toList = some ('v', 1) := by decide +kernel
  have param : splitRegister? "p0".toList = some ('p', 0) := by decide +kernel
  have denotes : twoRegisters.slot? "v01" = some 1 := by decide +kernel
  have denotes' : twoRegisters.slot? "p0" = some 1 := by decide +kernel
  have inside : twoRegisters.InFrame 1 := ⟨by decide, by decide⟩
  have regular : twoRegisters.Regular "v01" := ⟨'v', 1, second, .inr ⟨rfl, by decide⟩⟩
  have regular' : twoRegisters.Regular "p0" := ⟨'p', 0, param, .inl ⟨by decide, rfl⟩⟩
  have read : ((parse "A.smali" twoRegistersText).toOption.bind fun c => c.methods[0]?.bind fun m =>
      m.lines[1]?.map (·.operation)) = some (.move "v00" "p0") := by
    have text : twoRegistersText.toList = _ := String.toList_ofList
    rw [parse, text]
    decide +kernel
  obtain ⟨names, -, -⟩ := canonical_by_slot twoRegisters
  refine ⟨hasFrame_twoRegisters, denotes, denotes', inside,
    (names hasFrame_twoRegisters _ _ 1 1 denotes denotes' inside inside).mpr ⟨rfl, .inr ⟨regular, regular'⟩⟩, ?_⟩
  obtain ⟨c, isClass, read⟩ := Option.bind_eq_some_iff.mp read
  obtain ⟨m, isMethod, read⟩ := Option.bind_eq_some_iff.mp read
  obtain ⟨l, isLine, move⟩ := Option.map_eq_some_iff.mp read
  have parsed : parse "A.smali" twoRegistersText = .ok c := ok_of_toOption isClass
  have isMethod := Array.mem_of_getElem? isMethod
  have isLine := Array.mem_of_getElem? isLine
  obtain ⟨-, -, lines⟩ := canonical_by_slot m
  obtain ⟨registers, -⟩ := lines _ _ c parsed isMethod l isLine
  rw [move] at registers
  exact ⟨c, parsed, m, isMethod, l, isLine, move, registers _ (by simp [Operation.registers]),
    registers _ (by simp [Operation.registers])⟩

/-- An irregular spelling is a second name of its slot. -/
theorem twoRegisters_spelled_twice :
    ¬ ∀ m : Method, m.HasFrame → ∀ (r₁ r₂ : Register) (slot₁ slot₂ : Int), m.slot? r₁ = some slot₁ →
      m.slot? r₂ = some slot₂ → m.InFrame slot₁ → m.InFrame slot₂ →
      (m.canonical r₁ = m.canonical r₂ ↔ slot₁ = slot₂) := by
  intro spelledOnce
  have inside : twoRegisters.InFrame 0 := ⟨by decide, by decide⟩
  have same := (spelledOnce twoRegisters hasFrame_twoRegisters "v0" "v00" 0 0 (by decide +kernel) (by decide +kernel)
    inside inside).mpr rfl
  exact absurd same (by decide +kernel)

end SmaliTrace.ClassFile
