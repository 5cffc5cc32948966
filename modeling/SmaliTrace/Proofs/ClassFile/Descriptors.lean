import SmaliTrace.Proofs.ClassFile.Reading
import SmaliTrace.Proofs.Program.Hierarchy
import SmaliTrace.Proofs.Smali.Reference

/-!
# Descriptors

The parameters of a method that is read from a class file are what its descriptor splits into, and so are those of
the methods that its lines call. References with one descriptor therefore have the same parameters.
-/
namespace SmaliTrace
open SmaliTrace.ClassFile SmaliTrace.Smali

namespace Smali

/-- The parameters are what the descriptor splits into. -/
def MethodRef.Described (r : MethodRef) : Prop := splitTypes r.paramText.toList = .ok r.params

theorem MethodRef.Described.params_eq {r r' : MethodRef} (described : r.Described) (described' : r'.Described)
    (same : r.paramText = r'.paramText) : r.params = r'.params := by
  rw [Described, same] at described
  exact Except.ok.inj (described.symm.trans described')

theorem MethodRef.described_of_parseMember {owner s : List Char} {r : MethodRef}
    (read : parseMember owner s = .ok r) : r.Described := by
  unfold parseMember at read
  split at read
  · simp [fail] at read
  · split at read
    · simp [fail] at read
    · split at read
      · simp [fail] at read
      · next params result _ =>
        cases types : splitTypes params with
        | error e => simp [types, bind, Except.bind] at read
        | ok found =>
          simp only [types, bind, Except.bind, Except.ok.injEq] at read
          subst read
          rw [Described, paramText, join_of_splitTypesFrom types, String.toList_ofList, types]

theorem MethodRef.described_of_parse {s : List Char} {r : MethodRef} (read : parse s = .ok r) : r.Described := by
  unfold parse at read
  split at read <;> exact described_of_parseMember read

/-- An operation calls by a described reference, if it calls. -/
def Operation.Described (op : Operation) : Prop := ∀ r, op.method? = some r → r.Described

theorem Operation.described_of_silent {op : Operation} (silent : op.method? = none) : op.Described := by
  intro r calls
  simp [silent] at calls

private theorem silent_of_map {α ε : Type} {f : α → Operation} {e : Except ε α} {operation : Operation}
    (made : e.map f = .ok operation) (silent : ∀ v, (f v).method? = none) : operation.Described := by
  cases e with
  | error e => simp [Except.map] at made
  | ok v =>
    cases made
    exact Operation.described_of_silent (silent v)

theorem Operation.described_of_decodeOperands {text op : List Char} {kind : Kind} {operands : List (List Char)}
    {operation : Operation} (decoded : decodeOperands text op kind operands = .ok operation) :
    operation.Described := by
  unfold decodeOperands at decoded
  cases kind with
  | invoke =>
    dsimp only at decoded
    split at decoded
    · next list m _ =>
      cases registers : parseRegisterList text list with
      | error e => simp [registers, bind, Except.bind] at decoded
      | ok registers' =>
        cases method : MethodRef.parse m with
        | error e => simp [registers, method, bind, Except.bind] at decoded
        | ok method' =>
          simp only [registers, method, bind, Except.bind, Except.ok.injEq] at decoded
          subst decoded
          intro r calls
          cases calls
          exact MethodRef.described_of_parse method
    · simp [fail] at decoded
  | instanceGet | instancePut | staticGet | staticPut | filledNewArray =>
    dsimp only at decoded
    split at decoded
    · exact silent_of_map decoded fun _ => rfl
    · simp [wrongCount, fail] at decoded
  | directive | label | handler | dataStart | data | dataEnd => simp [fail] at decoded
  | _ =>
    dsimp only at decoded
    repeat' split at decoded
    all_goals first
      | (simp [wrongCount, fail] at decoded; done)
      | (cases decoded; exact described_of_silent rfl)

theorem Operation.described_of_decodeInstruction {text : List Char} {operation : Operation}
    (decoded : decodeInstruction text = .ok operation) : operation.Described := by
  unfold decodeInstruction at decoded
  dsimp only at decoded
  split at decoded
  · simp [fail] at decoded
  · next kind _ =>
    cases made : decodeOperands text (firstWord text) kind (splitOperands (afterFirstWord text)) with
    | error e => simp [made, bind, Except.bind] at decoded
    | ok made' =>
      simp only [made, bind, Except.bind] at decoded
      split at decoded
      · simp [fail] at decoded
      · cases decoded
        exact described_of_decodeOperands made

/-- The operation of an instruction that a part of the decoder yields. -/
private theorem described_of_map {e : Except DecodeError Operation} {f : Operation → Instruction × Decoder}
    {i : Instruction} {d : Decoder} (made : e.map f = .ok (i, d)) (keeps : ∀ op, (f op).1.operation = op)
    (described : ∀ op, e = .ok op → op.Described) : i.operation.Described := by
  cases e with
  | error e => simp [Except.map] at made
  | ok op =>
    have same : f op = (i, d) := by simpa [Except.map] using made
    have := keeps op
    rw [same] at this
    exact this ▸ described op rfl

theorem Operation.described_of_decode {d d' : Decoder} {line : List Char} {i : Instruction}
    (decoded : d.decode line = .ok (i, d')) : i.operation.Described := by
  unfold Decoder.decode at decoded
  dsimp only at decoded
  split at decoded
  · cases decoded
    exact described_of_silent rfl
  · split at decoded
    · cases decoded
      exact described_of_silent rfl
    · split at decoded
      · split at decoded
        · cases decoded
          exact described_of_silent rfl
        · refine described_of_map decoded (fun _ => rfl) fun op entry => ?_
          unfold Decoder.decodeEntry at entry
          repeat' split at entry
          all_goals first
            | (simp [fail] at entry; done)
            | (cases entry; exact described_of_silent rfl)
      · unfold Decoder.decodePlain at decoded
        dsimp only at decoded
        repeat' split at decoded
        · cases decoded
          exact described_of_silent rfl
        · refine described_of_map decoded (fun _ => rfl) fun op made => ?_
          unfold decodeCatch at made
          dsimp only at made
          repeat' split at made
          all_goals first
            | exact silent_of_map made fun _ => rfl
            | simp [fail] at made
        · cases decoded
          exact described_of_silent rfl
        · cases decoded
          exact described_of_silent rfl
        · refine described_of_map decoded (fun _ => rfl) fun op made => ?_
          unfold decodeDirective at made
          repeat' split at made
          all_goals first
            | (cases made; exact described_of_silent rfl)
            | simp [fail] at made
        · exact described_of_map decoded (fun _ => rfl) fun _ => described_of_decodeInstruction

theorem Operation.Described.mapRegisters {op : Operation} (described : op.Described) (f : Register → Register) :
    (op.mapRegisters f).Described := by
  cases op with
  | invoke arguments method => exact fun r calls => described r calls
  | _ => exact described_of_silent rfl

end Smali

/-! ## Class files -/

namespace ClassFile

/-- The method and the methods that its lines call have the parameters of their descriptors. -/
structure Method.Described (m : Method) : Prop where
  ref : m.ref.Described
  lines : ∀ l ∈ m.lines, l.operation.Described

namespace OpenMethod

variable {o : OpenMethod}

theorem described_finish (described : o.method.Described) : o.finish.Described := by
  unfold finish
  dsimp only
  split
  all_goals
    refine ⟨described.ref, fun l inside => ?_⟩
    obtain ⟨l', inside', rfl⟩ := Array.mem_map.mp inside
    exact (described.lines l' inside').mapRegisters _

theorem method_setCount (o : OpenMethod) (path : String) (line : Nat) (i : Instruction) :
    (o.setCount path line i).method.ref = o.method.ref ∧ (o.setCount path line i).method.lines = o.method.lines := by
  unfold setCount
  dsimp only
  repeat' split
  all_goals exact ⟨rfl, rfl⟩

theorem described_addLine (described : o.method.Described) (path : String) (line : Nat) (raw : List Char) :
    (o.addLine path line raw).method.Described := by
  unfold addLine
  split
  · exact described
  · split
    · exact ⟨described.ref, described.lines⟩
    · next i decoder decoded =>
      obtain ⟨ref, lines⟩ := method_setCount { o with decoder := decoder } path line i
      have counted : ({ o with decoder := decoder }.setCount path line i).method.Described :=
        ⟨ref ▸ described.ref, lines ▸ described.lines⟩
      dsimp only
      split
      · exact counted
      · refine ⟨counted.ref, fun l inside => ?_⟩
        rcases Array.mem_push.mp inside with before | rfl
        · exact counted.lines l before
        · exact Operation.described_of_decode decoded

end OpenMethod

/-- The methods of a class are described. -/
def ClassDecl.Described (c : ClassDecl) : Prop := ∀ m ∈ c.methods, m.Described

theorem described_parseMethod {line : Nat} {words : List (List Char)} {m : Method}
    (read : parseMethod line words = .ok m) : m.Described := by
  unfold parseMethod at read
  dsimp only at read
  split at read
  · split at read
    · simp at read
    · next r isRef =>
      cases read
      have ref : r.Described := MethodRef.described_of_parse isRef
      exact ⟨ref, by simp⟩
  · simp at read

/-- The methods of a class that is read from a file are described. -/
theorem described_of_parse {path text : String} {c : ClassDecl} (parsed : parse path text = .ok c) : c.Described :=
  Keeps.of_parse ⟨fun _ _ _ read => described_parseMethod read,
    fun _ path line raw described => OpenMethod.described_addLine described path line raw,
    fun _ described => OpenMethod.described_finish described,
    fun _ _ described => ⟨described.ref, described.lines⟩⟩ parsed

/-! ## Arguments and parameters -/

/-- The index is that of the receiver of a method, or of one of its parameters. -/
def IsParam (static : Bool) (params : List String) (index : Int) : Prop :=
  (index = -1 ∧ static = false) ∨ (0 ≤ index ∧ index < params.length)

theorem map_index_of_assign {types : List String} {registers : List Register} {start : Nat}
    {arguments : List Argument} (assigned : assign start types registers = some arguments) :
    arguments.map Argument.index = (List.range' start types.length).map Nat.cast := by
  induction types generalizing registers start arguments with
  | nil =>
    cases assigned
    rfl
  | cons type types ih =>
    cases registers with
    | nil => simp [assign] at assigned
    | cons r rest =>
      obtain ⟨others, found, rfl⟩ := Option.map_eq_some_iff.mp assigned
      simp [List.range'_succ, ih found]

/-- The arguments of a call that has enough registers are those for the receiver and the parameters. -/
theorem mem_map_index_of_arguments {i : Instruction} {registers : List Register} {ref : MethodRef}
    {arguments : List Argument} (calls : i.operation = .invoke registers ref) (found : i.arguments = .ok arguments)
    (index : Int) : index ∈ arguments.map Argument.index ↔ IsParam i.isStaticInvoke ref.params index := by
  have inRange {made : List Argument} {rest : List Register} (assigned : assign 0 ref.params rest = some made) :
      index ∈ made.map Argument.index ↔ 0 ≤ index ∧ index < ref.params.length := by
    simp only [map_index_of_assign assigned, List.mem_map, List.mem_range'_1]
    constructor
    · rintro ⟨n, bound, rfl⟩
      omega
    · rintro ⟨low, high⟩
      exact ⟨index.toNat, by omega, by omega⟩
  unfold Instruction.arguments at found
  rw [calls] at found
  dsimp only at found
  split at found
  · next isStatic =>
    cases assigned : assign 0 ref.params registers with
    | none => simp [assigned] at found
    | some made =>
      obtain rfl : made = arguments := by simpa [assigned] using found
      simp [IsParam, isStatic, inRange assigned]
  · next isStatic =>
    split at found
    · simp at found
    · next receiver rest =>
      cases assigned : assign 0 ref.params rest with
      | none => simp [assigned] at found
      | some made =>
        obtain rfl : ⟨-1, receiver, ref.owner⟩ :: made = arguments := by simpa [assigned] using found
        rw [List.map_cons, List.mem_cons, inRange assigned, IsParam]
        simp [isStatic]

/-- A call that has enough registers has an argument for the receiver and for every parameter. -/
theorem exists_argument {i : Instruction} {registers : List Register} {ref : MethodRef} {arguments : List Argument}
    {index : Int} (calls : i.operation = .invoke registers ref) (found : i.arguments = .ok arguments)
    (isParam : IsParam i.isStaticInvoke ref.params index) : ∃ r, i.argument index = .ok r := by
  obtain ⟨a, inside, rfl⟩ := List.mem_map.mp ((mem_map_index_of_arguments calls found index).mpr isParam)
  simp only [Instruction.argument, found, bind, Except.bind]
  split
  · exact ⟨_, rfl⟩
  · next none => exact absurd (List.find?_eq_none.mp none a inside) (by simp)

theorem slotIndex?_bounds {slot index : Int} {types : List String} {start position : Nat}
    (found : Method.slotIndex? slot start position types = some index) :
    (start : Int) ≤ index ∧ index < start + types.length := by
  induction types generalizing start position with
  | nil => simp [Method.slotIndex?] at found
  | cons type types ih =>
    rw [Method.slotIndex?] at found
    simp only [List.length_cons]
    split at found
    · cases found
      omega
    · have := ih found
      omega

/-- A register that holds a parameter on entry holds the receiver or one of the parameters. -/
theorem Method.isParam_of_paramIndex? {m : Method} {r : Register} {index : Int}
    (holds : m.paramIndex? r = some index) : IsParam m.isStatic m.params index := by
  unfold paramIndex? at holds
  split at holds
  · split at holds
    · simp at holds
    · split at holds
      · next receiver =>
        cases holds
        exact .inl ⟨rfl, by simpa using (Bool.and_eq_true_iff.mp receiver).1⟩
      · have := slotIndex?_bounds holds
        exact .inr (by omega)
  · simp at holds

/-- Every parameter has a register. -/
theorem Method.exists_paramRegister {m : Method} {index : Int} (low : 0 ≤ index) (high : index < m.params.length) :
    ∃ r, m.paramRegister index = .ok r := by
  have inside : ¬ (index < 0 ∨ (m.params.length : Int) ≤ index) := by omega
  rw [paramRegister, if_neg (by omega), if_neg inside]
  exact ⟨_, rfl⟩

end ClassFile

/-! ## Programs -/

namespace Program

variable {p : Program}

/-- All methods of the program are described. -/
def Described (p : Program) : Prop := ∀ c ∈ p.classes, c.Described

/-- A program of classes read from class files is described. -/
theorem described_ofClasses {classes : List ClassDecl}
    (parsed : ∀ c ∈ classes, ∃ path text, ClassFile.parse path text = .ok c) : (ofClasses classes).1.Described := by
  intro c inside
  obtain ⟨path, text, isClass⟩ := parsed c (mem_of_mem_ofClasses inside)
  exact ClassFile.described_of_parse isClass

theorem Described.method? (described : p.Described) {id : MethodId} {m : Method} (isMethod : p.method? id = some m) :
    m.Described := by
  obtain ⟨c, isClass, isMethod⟩ := Option.bind_eq_some_iff.mp isMethod
  exact described c (Array.mem_of_getElem? isClass) m (Array.mem_of_getElem? isMethod)

/-- The references of a body: its own, and those of the methods that it calls. -/
def references (m : Method) : List MethodRef := m.ref :: m.lines.toList.filterMap fun l => l.operation.method?

theorem described_of_references {m : Method} {path name : String}
    (split : (references m).map (fun r => splitTypes r.paramText.toList) = (references m).map fun r => .ok r.params) :
    (⟨#[{ path := path, name := name, methods := #[m] }]⟩ : Program).Described := by
  have each := List.map_inj_left.mp split
  intro c isClass m' isMethod
  obtain rfl := Array.mem_singleton.mp isClass
  obtain rfl := Array.mem_singleton.mp isMethod
  refine ⟨each _ List.mem_cons_self, fun l inside r calls => each r (List.mem_cons_of_mem _ ?_)⟩
  exact List.mem_filterMap.mpr ⟨l, Array.mem_toList_iff.mpr inside, calls⟩

end Program

end SmaliTrace
