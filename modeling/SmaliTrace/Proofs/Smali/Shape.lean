import SmaliTrace.Proofs.ClassFile.Slots
import SmaliTrace.Smali.Decoder

/-!
The shape of an instruction. The mnemonic decides the family; the family and the mnemonic decide how many registers
there are, and at which positions among them the defined one, the sources and those that are read stand. An instruction
that was decoded has a register at each of these positions, and keeps it when its registers are respelled.
-/
namespace SmaliTrace.Smali

namespace Kind

/-- The number of registers that an instruction of the family has under the mnemonic. The families that take a list of
registers have any number. -/
def arity? (op : List Char) : Kind → Option Nat
  | nop | goto => some 0
  | ret => some (if op = "return-void".toList then 0 else 1)
  | moveResult | moveException | const | monitor | checkCast | newInstance | fillArrayData | throw | switch |
    staticGet | staticPut => some 1
  | branch => some (if Text.endsWith "z" op then 1 else 2)
  | move | unaryMath | arrayLength | instanceOf | newArray | instanceGet | instancePut => some 2
  | binaryMath => some (if Text.contains "/lit" op || Text.endsWith "/2addr" op then 2 else 3)
  | compare | arrayGet | arrayPut => some 3
  | filledNewArray | invoke | directive | label | handler | dataStart | data | dataEnd => none

/-- The position of the register that the family defines. -/
def resultSlot? : Kind → Option Nat
  | move | moveResult | moveException | const | instanceOf | arrayLength | newInstance | newArray | compare |
    arrayGet | instanceGet | staticGet | unaryMath | binaryMath => some 0
  | _ => none

/-- The positions of the registers whose values flow into the result. -/
def sourceSlots (op : List Char) : Kind → List Nat
  | move | unaryMath | instanceOf | arrayLength | arrayGet => [1]
  | compare => [1, 2]
  | binaryMath =>
    if Text.contains "/lit" op then [1] else if Text.endsWith "/2addr" op then [0, 1] else [1, 2]
  | _ => []

/-- The positions of the registers that are read, when there are `count` registers. -/
def readSlots (op : List Char) (count : Nat) : Kind → List Nat
  | ret | monitor | checkCast | fillArrayData | throw | switch | branch | filledNewArray | invoke | arrayPut |
    instancePut | staticPut => List.range count
  | instanceGet | newArray => [1]
  | arrayGet => [1, 2]
  | kind => kind.sourceSlots op

/-- The positions at which searches and summaries pick a register without a look at how many there are: the value that
is copied, stored or returned, the array that an element is in, and the register that a value is made in. -/
def pickedSlots (op : List Char) : Kind → List Nat
  | move | unaryMath | arrayGet => [1]
  | arrayPut => [0, 1]
  | fillArrayData | instancePut | staticPut | newInstance | const | moveResult => [0]
  | ret => if op = "return-void".toList then [] else [0]
  | binaryMath => ((binaryMath.sourceSlots op).head?).toList
  | _ => []

/-- The family names a field. -/
def namesField : Kind → Bool
  | instanceGet | instancePut | staticGet | staticPut => true
  | _ => false

end Kind

/-- The operation is one of the family under the mnemonic. -/
structure Operation.Fits (kind : Kind) (op : List Char) (operation : Operation) : Prop where
  family : operation.kind = kind
  arity : ∀ n, kind.arity? op = some n → operation.registers.length = n
  literal : (∃ dst src literal, operation = .literalMath dst src literal) ↔
    kind = .binaryMath ∧ Text.contains "/lit" op = true

/-- The registers at the positions are these: each position is one that there is. -/
def Operation.PicksAt (operation : Operation) (slots : List Nat) (registers : List Register) : Prop :=
  slots.map (operation.registers[·]?) = registers.map some

/-- The instruction has what its family and mnemonic ask for. -/
structure Instruction.Shaped (i : Instruction) : Prop where
  family : classify? i.op.toList = some i.kind
  arity : ∀ n, i.kind.arity? i.op.toList = some n → i.operation.registers.length = n
  field : i.kind.namesField = true → ∃ field, i.operation.field? = some field
  method : i.kind = .invoke → ∃ method, i.operation.method? = some method
  literalMath : i.isLiteralMath = (decide (i.kind = .binaryMath) && Text.contains "/lit" i.op.toList)
  result : i.operation.PicksAt i.kind.resultSlot?.toList i.operation.result?.toList
  sources : i.operation.PicksAt (i.kind.sourceSlots i.op.toList) i.operation.sources
  reads : i.operation.PicksAt (i.kind.readSlots i.op.toList i.operation.registers.length) i.operation.reads
  picked : ∀ slot ∈ i.kind.pickedSlots i.op.toList, slot < i.operation.registers.length
  arguments : ∀ arguments, i.arguments = .ok arguments →
    (∀ a ∈ arguments, a.register ∈ i.operation.registers) ∧ (i.isStaticInvoke = false → arguments ≠ [])

/-! ### Operands -/

theorem executable_of_classify? {op : List Char} {kind : Kind} (found : classify? op = some kind) :
    kind.executable = true := by
  have whole : ∀ entry ∈ wholeMnemonics, entry.2.executable = true := by decide
  have stems : ∀ entry ∈ mnemonicStems, entry.2.executable = true := by decide
  unfold classify? at found
  split at found
  · next entry listed =>
    cases found
    exact whole _ (List.mem_of_find?_eq_some listed)
  · split at found
    · next entry listed =>
      cases found
      exact stems _ (List.mem_of_find?_eq_some listed)
    · split at found
      · cases found
        rfl
      · split at found <;> cases found
        rfl

namespace Operation

variable {kind : Kind} {op text : List Char} {operation : Operation}

private theorem fits_of_map {α : Type} {f : α → Operation} {e : Except DecodeError α} (made : e.map f = .ok operation)
    (fits : ∀ v, (f v).Fits kind op) : operation.Fits kind op := by
  cases e with
  | error e => simp [Except.map] at made
  | ok v =>
    cases made
    exact fits v

/-- Outside of binary math the family and the number of registers are all there is to it. -/
private theorem fits_of_ne (family : operation.kind = kind) (noMath : kind ≠ .binaryMath)
    (arity : ∀ n, kind.arity? op = some n → operation.registers.length = n) : operation.Fits kind op := by
  refine ⟨family, arity, ?_, fun isMath => absurd isMath.1 noMath⟩
  rintro ⟨_, _, _, rfl⟩
  exact absurd family.symm noMath

/-- Operands that are decoded make an operation of their family. -/
theorem fits_of_decodeOperands {operands : List (List Char)}
    (decoded : decodeOperands text op kind operands = .ok operation) : operation.Fits kind op := by
  unfold decodeOperands at decoded
  cases kind with
  | directive | label | handler | dataStart | data | dataEnd => simp [fail] at decoded
  | invoke =>
    dsimp only at decoded
    split at decoded
    · next list m _ =>
      cases registers : parseRegisterList text list with
      | error e => simp [registers, bind, Except.bind] at decoded
      | ok registers' =>
        cases method : MethodRef.parse m with
        | error e => simp [registers, method, bind, Except.bind] at decoded
        | ok method' =>
          simp only [registers, method, bind, Except.bind, Except.ok.injEq] at decoded
          subst decoded
          exact fits_of_ne rfl (by decide) (by simp [Kind.arity?])
    · simp [fail] at decoded
  | filledNewArray =>
    dsimp only at decoded
    split at decoded
    · exact fits_of_map decoded fun _ => fits_of_ne rfl (by decide) (by simp [Kind.arity?])
    · simp [wrongCount, fail] at decoded
  | instanceGet | instancePut | staticGet | staticPut =>
    dsimp only at decoded
    split at decoded
    · exact fits_of_map decoded fun _ => fits_of_ne rfl (by decide) fun _ => Option.some.inj
    · simp [wrongCount, fail] at decoded
  | ret =>
    dsimp only at decoded
    split at decoded
    · next void =>
      split at decoded
      · cases decoded
        refine fits_of_ne rfl (by decide) fun n isArity => ?_
        rw [Kind.arity?, if_pos void] at isArity
        exact Option.some.inj isArity
      · simp [wrongCount, fail] at decoded
    · next void =>
      split at decoded
      · cases decoded
        refine fits_of_ne rfl (by decide) fun n isArity => ?_
        rw [Kind.arity?, if_neg void] at isArity
        exact Option.some.inj isArity
      · simp [wrongCount, fail] at decoded
  | branch =>
    dsimp only at decoded
    split at decoded
    · next zero =>
      split at decoded
      · cases decoded
        refine fits_of_ne rfl (by decide) fun n isArity => ?_
        rw [Kind.arity?, if_pos zero] at isArity
        exact Option.some.inj isArity
      · simp [wrongCount, fail] at decoded
    · next zero =>
      split at decoded
      · cases decoded
        refine fits_of_ne rfl (by decide) fun n isArity => ?_
        rw [Kind.arity?, if_neg zero] at isArity
        exact Option.some.inj isArity
      · simp [wrongCount, fail] at decoded
  | const =>
    dsimp only at decoded
    split at decoded
    · split at decoded <;> cases decoded
      all_goals exact fits_of_ne rfl (by decide) fun _ => Option.some.inj
    · simp [wrongCount, fail] at decoded
  | binaryMath =>
    dsimp only at decoded
    split at decoded
    · next literal =>
      split at decoded
      · cases decoded
        exact ⟨rfl, fun n => by simp [Kind.arity?, literal, registers], by simp [literal]⟩
      · simp [wrongCount, fail] at decoded
    · next noLiteral =>
      split at decoded
      all_goals
        next inPlace =>
          split at decoded
          · cases decoded
            exact ⟨rfl, fun n => by simp [Kind.arity?, noLiteral, inPlace, registers], by simp [noLiteral]⟩
          · simp [wrongCount, fail] at decoded
  | _ =>
    dsimp only at decoded
    split at decoded
    · cases decoded
      exact fits_of_ne rfl (by decide) fun _ => Option.some.inj
    · simp [wrongCount, fail] at decoded

theorem mapRegisters_id (operation : Operation) : operation.mapRegisters id = operation := by
  cases operation <;> simp [Operation.mapRegisters]

/-- Respelling the registers leaves the family. -/
theorem Fits.mapRegisters (fits : operation.Fits kind op) (f : Register → Register) :
    (operation.mapRegisters f).Fits kind op := by
  obtain ⟨rfl, arity, literal⟩ := fits
  refine ⟨by cases operation <;> rfl, fun n isArity => ?_, ?_⟩
  · rw [registers_mapRegisters, List.length_map, arity n isArity]
  · rw [← literal]
    cases operation <;> simp [Operation.mapRegisters]

/-! ### Positions -/

theorem picksAt_all (operation : Operation) :
    operation.PicksAt (List.range operation.registers.length) operation.registers :=
  List.ext_getElem (by simp) fun n _ _ => by simp

namespace Fits

variable (fits : operation.Fits kind op)
include fits

/-- The mnemonic tells the three ways of binary math apart. -/
theorem math (isMath : kind = .binaryMath) :
    (∃ dst src literal, operation = .literalMath dst src literal ∧ Text.contains "/lit" op = true) ∨
      (∃ dst src, operation = .inPlaceMath dst src ∧ Text.contains "/lit" op = false ∧
        Text.endsWith "/2addr" op = true) ∨
      ∃ dst left right, operation = .binaryMath dst left right ∧ Text.contains "/lit" op = false ∧
        Text.endsWith "/2addr" op = false := by
  obtain ⟨family, arity, literal⟩ := fits
  have counted := arity _ (by rw [isMath]; rfl)
  rw [isMath] at family literal
  cases operation with
  | literalMath dst src x => exact .inl ⟨dst, src, x, rfl, (literal.mp ⟨_, _, _, rfl⟩).2⟩
  | inPlaceMath dst src =>
    have noLiteral : Text.contains "/lit" op = false := by simpa using literal
    exact .inr (.inl ⟨dst, src, rfl, noLiteral, by simpa [registers, noLiteral] using counted⟩)
  | binaryMath dst left right =>
    have noLiteral : Text.contains "/lit" op = false := by simpa using literal
    exact .inr (.inr ⟨dst, left, right, rfl, noLiteral, by simpa [registers, noLiteral] using counted⟩)
  | _ => cases family

theorem result : operation.PicksAt kind.resultSlot?.toList operation.result?.toList := by
  rw [← fits.family]
  cases operation <;> rfl

theorem sources : operation.PicksAt (kind.sourceSlots op) operation.sources := by
  by_cases isMath : kind = .binaryMath
  · obtain ⟨_, _, _, rfl, literal⟩ | ⟨_, _, rfl, noLiteral, inPlace⟩ | ⟨_, _, _, rfl, noLiteral, apart⟩ :=
      fits.math isMath
    · simp [isMath, Kind.sourceSlots, literal, PicksAt, registers, Operation.sources]
    · simp [isMath, Kind.sourceSlots, noLiteral, inPlace, PicksAt, registers, Operation.sources]
    · simp [isMath, Kind.sourceSlots, noLiteral, apart, PicksAt, registers, Operation.sources]
  · rw [← fits.family] at isMath ⊢
    cases operation with
    | literalMath | inPlaceMath | binaryMath => exact absurd rfl isMath
    | _ => rfl

theorem reads : operation.PicksAt (kind.readSlots op operation.registers.length) operation.reads := by
  by_cases isMath : kind = .binaryMath
  · have sources := fits.sources
    rw [isMath] at sources ⊢
    obtain ⟨_, _, _, rfl, _⟩ | ⟨_, _, rfl, _⟩ | ⟨_, _, _, rfl, _⟩ := fits.math isMath
    all_goals exact sources
  · rw [← fits.family] at isMath ⊢
    cases operation with
    | literalMath | inPlaceMath | binaryMath => exact absurd rfl isMath
    | filledNewArray elements type => exact picksAt_all (.filledNewArray elements type)
    | invoke arguments method => exact picksAt_all (.invoke arguments method)
    | _ => rfl

theorem picked : ∀ slot ∈ kind.pickedSlots op, slot < operation.registers.length := by
  by_cases isMath : kind = .binaryMath
  · obtain ⟨_, _, _, rfl, literal⟩ | ⟨_, _, rfl, noLiteral, inPlace⟩ | ⟨_, _, _, rfl, noLiteral, apart⟩ :=
      fits.math isMath
    · simp [isMath, Kind.pickedSlots, Kind.sourceSlots, literal, registers]
    · simp [isMath, Kind.pickedSlots, Kind.sourceSlots, noLiteral, inPlace, registers]
    · simp [isMath, Kind.pickedSlots, Kind.sourceSlots, noLiteral, apart, registers]
  · have arity := fits.arity
    rw [← fits.family] at isMath arity ⊢
    cases operation with
    | literalMath | inPlaceMath | binaryMath => exact absurd rfl isMath
    | returnVoid =>
      by_cases void : op = "return-void".toList
      · rw [Operation.kind, Kind.pickedSlots, if_pos void]
        exact List.forall_mem_nil _
      · exact absurd (arity 1 (congrArg some (if_neg void))) Nat.zero_ne_one
    | returnValue src =>
      by_cases void : op = "return-void".toList
      · exact absurd (arity 0 (congrArg some (if_pos void))) Nat.one_ne_zero
      · rw [Operation.kind, Kind.pickedSlots, if_neg void]
        simp [registers]
    | _ => simp [Operation.kind, Kind.pickedSlots, registers]

end Fits
end Operation

namespace Instruction

variable {i : Instruction}

/-- The arguments of a call are registers of it, and a call with a receiver has one. -/
theorem mem_registers_of_arguments {arguments : List Argument} (found : i.arguments = .ok arguments) :
    (∀ a ∈ arguments, a.register ∈ i.operation.registers) ∧ (i.isStaticInvoke = false → arguments ≠ []) := by
  unfold Instruction.arguments at found
  split at found
  · next registers ref calls =>
    dsimp only at found
    rw [calls]
    split at found
    · next isStatic =>
      cases assigned : assign 0 ref.params registers with
      | none => simp [assigned] at found
      | some made =>
        obtain rfl : made = arguments := by simpa [assigned] using found
        refine ⟨fun a inside => ?_, fun dynamic => by simp [isStatic] at dynamic⟩
        obtain ⟨_, _, _, isRegister⟩ := exists_of_mem_assign assigned inside
        exact List.mem_of_getElem? isRegister
    · split at found
      · simp at found
      · next receiver rest =>
        cases assigned : assign 0 ref.params rest with
        | none => simp [assigned] at found
        | some made =>
          obtain rfl : ⟨-1, receiver, ref.owner⟩ :: made = arguments := by simpa [assigned] using found
          refine ⟨fun a inside => ?_, fun _ => List.cons_ne_nil _ _⟩
          rcases List.mem_cons.mp inside with rfl | later
          · exact List.mem_cons_self
          · obtain ⟨_, _, _, isRegister⟩ := exists_of_mem_assign assigned later
            exact List.mem_cons_of_mem _ (List.mem_of_getElem? isRegister)
  · cases found

/-- An operation that fits its family and mnemonic has the whole shape. -/
theorem shaped_of_fits {kind : Kind} (found : classify? i.op.toList = some kind)
    (fits : i.operation.Fits kind i.op.toList) : i.Shaped := by
  obtain rfl : i.kind = kind := fits.family
  refine ⟨found, fits.arity, ?_, ?_, ?_, fits.result, fits.sources, fits.reads, fits.picked,
    fun _ => mem_registers_of_arguments⟩
  · unfold Instruction.kind
    cases i.operation <;> simp [Operation.kind, Kind.namesField, Operation.field?]
  · unfold Instruction.kind
    cases i.operation <;> simp [Operation.kind, Operation.method?]
  · by_cases isMath : i.kind = .binaryMath
    · obtain ⟨_, _, _, math, literal⟩ | ⟨_, _, math, noLiteral, _⟩ | ⟨_, _, _, math, noLiteral, _⟩ := fits.math isMath
      · simp [isLiteralMath, math, isMath, literal]
      · simp [isLiteralMath, math, isMath, noLiteral]
      · simp [isLiteralMath, math, isMath, noLiteral]
    · rw [decide_eq_false isMath, Bool.false_and]
      unfold Instruction.kind at isMath
      unfold isLiteralMath
      cases does : i.operation with
      | literalMath => exact absurd (congrArg Operation.kind does) isMath
      | _ => rfl

end Instruction

/-- An instruction that is decoded has the shape of its mnemonic, and its registers are registers. -/
theorem shaped_of_decodeInstruction {text : List Char} {operation : Operation}
    (decoded : decodeInstruction text = .ok operation) :
    (∀ r ∈ operation.registers, isRegister r.toList = true) ∧
      ∀ (f : Register → Register) (whole : String),
        (⟨String.ofList (firstWord text), operation.mapRegisters f, whole⟩ : Instruction).Shaped := by
  unfold decodeInstruction at decoded
  dsimp only at decoded
  split at decoded
  · simp [fail] at decoded
  · next kind found =>
    cases made : decodeOperands text (firstWord text) kind (splitOperands (afterFirstWord text)) with
    | error e => simp [made, bind, Except.bind] at decoded
    | ok made' =>
      simp only [made, bind, Except.bind] at decoded
      split at decoded
      · simp [fail] at decoded
      · next accepted =>
        cases decoded
        refine ⟨by simpa using accepted, fun f whole => ?_⟩
        have fits := (Operation.fits_of_decodeOperands made).mapRegisters f
        exact Instruction.shaped_of_fits (by simpa using found) (by simpa using fits)

end SmaliTrace.Smali
