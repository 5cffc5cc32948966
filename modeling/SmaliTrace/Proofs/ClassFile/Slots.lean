import SmaliTrace.ClassFile.Basic
import SmaliTrace.Proofs.Smali.Register

/-!
Calls and their callees count registers alike. The register of a call that an argument is read from has the number
of the `p` register that the parameter is in on entry, and every register of a call that is passed belongs to one
parameter, whatever the widths of the parameters before it.
-/
namespace SmaliTrace.Smali

theorem slotSize_pos (type : String) : 0 < slotSize type := by
  unfold slotSize
  split <;> decide

/-- An argument stands behind the registers that the parameters before it take. -/
theorem exists_of_mem_assign {types : List String} {registers : List Register} {start : Nat}
    {arguments : List Argument} {a : Argument} (assigned : assign start types registers = some arguments)
    (inside : a ∈ arguments) :
    ∃ n < types.length, a.index = start + n ∧ registers[slotCount (types.take n)]? = some a.register := by
  induction types generalizing registers start arguments with
  | nil =>
    cases assigned
    simp at inside
  | cons type types ih =>
    cases registers with
    | nil => simp [assign] at assigned
    | cons r rest =>
      obtain ⟨others, found, rfl⟩ := Option.map_eq_some_iff.mp assigned
      rcases List.mem_cons.mp inside with rfl | later
      · exact ⟨0, by simp, by simp, rfl⟩
      · obtain ⟨n, bound, index, isRegister⟩ := ih found later
        have wide := slotSize_pos type
        refine ⟨n + 1, by simpa using bound, by rw [index]; omega, ?_⟩
        rw [List.getElem?_drop] at isRegister
        rw [List.take_succ_cons, slotCount, ← isRegister,
          show slotSize type + slotCount (types.take n) = slotSize type - 1 + slotCount (types.take n) + 1 by omega]
        rfl

end SmaliTrace.Smali

namespace SmaliTrace.ClassFile
open SmaliTrace.Smali

namespace Method

/-- The number of registers that a parameter takes, the receiver being number -1. -/
def paramSize (m : Method) (index : Int) : Nat :=
  if index = -1 then 1 else (m.params[index.toNat]?.map slotSize).getD 0

theorem slotIndex?_eq_some_iff {slot index : Int} {types : List String} {start position : Nat} :
    slotIndex? slot start position types = some index ↔
      ∃ (n : Nat) (type : String), types[n]? = some type ∧ index = start + n ∧
        (position + slotCount (types.take n) : Nat) ≤ slot ∧
        slot < (position + slotCount (types.take n) + slotSize type : Nat) := by
  induction types generalizing start position with
  | nil => simp [slotIndex?]
  | cons type types ih =>
    rw [slotIndex?]
    split
    · next here =>
      constructor
      · intro same
        cases same
        exact ⟨0, type, rfl, by simp, by simpa [slotCount] using here⟩
      · rintro ⟨n, type', isType, rfl, low, high⟩
        cases n with
        | zero => simp
        | succ n =>
          rw [List.take_succ_cons, slotCount] at low
          omega
    · next elsewhere =>
      rw [ih]
      constructor
      · rintro ⟨n, type', isType, rfl, low, high⟩
        refine ⟨n + 1, type', isType, by omega, ?_⟩
        rw [List.take_succ_cons, slotCount]
        omega
      · rintro ⟨n, type', isType, rfl, low, high⟩
        cases n with
        | zero =>
          cases isType
          simp only [List.take_zero, slotCount] at low high
          omega
        | succ n =>
          rw [List.take_succ_cons, slotCount] at low high
          exact ⟨n, type', isType, by omega, by omega, by omega⟩

/-- The registers that types take have no gaps. -/
theorem isSome_slotIndex? {slot : Int} {types : List String} {start position : Nat} :
    (slotIndex? slot start position types).isSome ↔ position ≤ slot ∧ slot < (position + slotCount types : Nat) := by
  induction types generalizing start position with
  | nil =>
    simp only [slotIndex?, slotCount]
    simp
  | cons type types ih =>
    rw [slotIndex?, slotCount]
    split
    · next here =>
      simp only [Option.isSome_some, true_iff]
      omega
    · next elsewhere =>
      rw [ih]
      omega

variable {m : Method} {r : Register} {k index : Int}

/-- A name that starts with `p` is not respelled. -/
theorem canonical_of_toList_p {digits : List Char} (isText : r.toList = 'p' :: digits) : m.canonical r = r := by
  unfold canonical
  rw [isText]
  split <;> rfl

theorem canonical_of_splitRegister? (split : splitRegister? r.toList = some ('p', k)) : m.canonical r = r := by
  obtain ⟨digits, isText, -, -⟩ := eq_cons_of_splitRegister? split
  exact canonical_of_toList_p isText

/-- The parameter that a `p` register holds, by its number. -/
theorem paramIndex?_eq (split : splitRegister? r.toList = some ('p', k)) :
    m.paramIndex? r = if !m.isStatic && k = 0 then some (-1) else slotIndex? k 0 m.firstSlot m.params := by
  obtain ⟨digits, isText, -, read⟩ := eq_cons_of_splitRegister? split
  simp only [paramIndex?, canonical_of_splitRegister? split, isText, read]

theorem paramRegister_of_lt {n : Nat} (bound : n < m.params.length) :
    m.paramRegister n = .ok (register 'p' (m.firstSlot + slotCount (m.params.take n) : Nat)) := by
  have inside : ¬ ((n : Int) < 0 ∨ (m.params.length : Int) ≤ n) := by omega
  rw [paramRegister, if_neg (by omega), if_neg inside, Int.toNat_natCast]

theorem paramRegister_receiver (dynamic : m.isStatic = false) : m.paramRegister (-1) = .ok (register 'p' (0 : Nat)) := by
  rw [paramRegister, if_pos rfl, dynamic]
  rfl

/-- The `p` registers that hold something on entry are the first ones. -/
theorem isSome_paramIndex? (split : splitRegister? r.toList = some ('p', k)) :
    (m.paramIndex? r).isSome ↔ 0 ≤ k ∧ k < m.paramSlots := by
  rw [paramIndex?_eq split, paramSlots, firstSlot]
  cases isStatic : m.isStatic with
  | true =>
    simp only [Bool.not_true, Bool.false_and, Bool.false_eq_true, if_false, if_true, isSome_slotIndex?]
    omega
  | false =>
    by_cases receiver : k = 0
    · simp only [receiver, Bool.not_false, decide_true, Bool.and_self, if_true, Option.isSome_some, true_iff,
        Bool.false_eq_true, if_false]
      omega
    · simp only [receiver, decide_false, Bool.and_false, Bool.false_eq_true, if_false, isSome_slotIndex?]
      omega

/-- A `p` register that holds something on entry is one of those of its parameter. -/
theorem exists_paramRegister_of_paramIndex? (split : splitRegister? r.toList = some ('p', k))
    (holds : m.paramIndex? r = some index) :
    ∃ start : Nat, m.paramRegister index = .ok (register 'p' start) ∧ start ≤ k ∧ k < start + m.paramSize index := by
  rw [paramIndex?_eq split] at holds
  split at holds
  · next receiver =>
    cases holds
    obtain ⟨dynamic, rfl⟩ : m.isStatic = false ∧ k = 0 := by simpa using receiver
    exact ⟨0, paramRegister_receiver dynamic, by simp, by simp [paramSize]⟩
  · obtain ⟨n, type, isType, rfl, low, high⟩ := slotIndex?_eq_some_iff.mp holds
    obtain ⟨bound, -⟩ := List.getElem?_eq_some_iff.mp isType
    have size : m.paramSize ((0 : Nat) + n) = slotSize type := by
      rw [paramSize, if_neg (by omega)]
      simp [isType]
    rw [size, Int.natCast_zero, Int.zero_add]
    exact ⟨_, paramRegister_of_lt bound, low, by omega⟩

/-- The register that a parameter starts in holds that parameter. -/
theorem paramIndex?_paramRegister (counts : Number.IsWord m.paramSlots) {n : Nat} (bound : n < m.params.length) :
    m.paramIndex? (register 'p' (m.firstSlot + slotCount (m.params.take n) : Nat)) = some (n : Int) := by
  have holds : slotIndex? (m.firstSlot + slotCount (m.params.take n) : Nat) 0 m.firstSlot m.params = some (n : Int) := by
    have wide := slotSize_pos m.params[n]
    exact slotIndex?_eq_some_iff.mpr ⟨n, m.params[n], List.getElem?_eq_getElem bound, by simp, by omega, by omega⟩
  have inside := (isSome_slotIndex?.mp (Option.isSome_iff_exists.mpr ⟨_, holds⟩)).2
  have isWord : Number.IsWord (m.firstSlot + slotCount (m.params.take n) : Nat) := by
    simp only [Number.IsWord, paramSlots] at counts ⊢
    omega
  rw [paramIndex?_eq (splitRegister?_register (.inr rfl) isWord), holds]
  refine if_neg fun receiver => ?_
  obtain ⟨dynamic, first⟩ : m.isStatic = false ∧ _ := by simpa using receiver
  simp only [firstSlot, dynamic, Bool.false_eq_true, if_false] at first
  omega

theorem paramIndex?_receiver (dynamic : m.isStatic = false) : m.paramIndex? (register 'p' (0 : Nat)) = some (-1) := by
  rw [paramIndex?_eq (splitRegister?_register (.inr rfl) (by decide)), dynamic]
  rfl

end Method

/-- A call whose reference has the parameters of the method, and which passes a receiver as the method takes one,
reads each argument from the register with the number of the parameter's own; and the `p` registers that hold a
parameter on entry are exactly the first ones, each of them among those of its parameter. -/
theorem arguments_in_param_slots {m : Method} (counts : Number.IsWord m.paramSlots) :
    (∀ (i : Instruction) (registers : List Register) (ref : MethodRef) (arguments : List Argument),
      i.operation = .invoke registers ref → ref.params = m.params → i.isStaticInvoke = m.isStatic →
      i.arguments = .ok arguments → ∀ a ∈ arguments, ∃ k : Nat, registers[k]? = some a.register ∧
        m.paramRegister a.index = .ok (register 'p' k) ∧ m.paramIndex? (register 'p' k) = some a.index) ∧
    ∀ (r : Register) (k : Int), splitRegister? r.toList = some ('p', k) →
      ((m.paramIndex? r).isSome ↔ 0 ≤ k ∧ k < m.paramSlots) ∧
      ∀ index, m.paramIndex? r = some index → ∃ start : Nat, m.paramRegister index = .ok (register 'p' start) ∧
        start ≤ k ∧ k < start + m.paramSize index := by
  refine ⟨?_, fun r k split => ⟨Method.isSome_paramIndex? split, fun index =>
    Method.exists_paramRegister_of_paramIndex? split⟩⟩
  intro i registers ref arguments calls params static found a inside
  -- an argument that is no receiver, its register counted among those behind the receiver
  have passed {rest : List Register} {made : List Argument} (assigned : assign 0 ref.params rest = some made)
      (behind : ∀ k, rest[k]? = registers[m.firstSlot + k]?) (inside : a ∈ made) : ∃ k : Nat,
      registers[k]? = some a.register ∧ m.paramRegister a.index = .ok (register 'p' k) ∧
        m.paramIndex? (register 'p' k) = some a.index := by
    obtain ⟨n, bound, index, isRegister⟩ := exists_of_mem_assign assigned inside
    rw [params] at bound isRegister
    rw [index, Int.natCast_zero, Int.zero_add]
    exact ⟨_, behind _ ▸ isRegister, Method.paramRegister_of_lt bound, Method.paramIndex?_paramRegister counts bound⟩
  unfold Instruction.arguments at found
  rw [calls] at found
  dsimp only at found
  split at found
  · next isStatic =>
    rw [static] at isStatic
    cases assigned : assign 0 ref.params registers with
    | none => simp [assigned] at found
    | some made =>
      obtain rfl : made = arguments := by simpa [assigned] using found
      exact passed assigned (fun k => by simp [Method.firstSlot, isStatic]) inside
  · next isStatic =>
    have dynamic : m.isStatic = false := by rwa [static, Bool.not_eq_true] at isStatic
    split at found
    · simp at found
    · next receiver rest =>
      cases assigned : assign 0 ref.params rest with
      | none => simp [assigned] at found
      | some made =>
        obtain rfl : ⟨-1, receiver, ref.owner⟩ :: made = arguments := by simpa [assigned] using found
        rcases List.mem_cons.mp inside with rfl | later
        · exact ⟨0, rfl, Method.paramRegister_receiver dynamic, Method.paramIndex?_receiver dynamic⟩
        · refine passed assigned (fun k => ?_) later
          simp [Method.firstSlot, dynamic, Nat.add_comm 1 k]

/-- A method with a narrow parameter between two wide ones. -/
def widened : Method :=
  { owner := "LMain;", name := "run", params := ["J", "Ljava/lang/String;", "D"], result := "V", flags := [] }

/-- A call of the method. -/
def widenedCall : Instruction :=
  ⟨"invoke-virtual", .invoke ["v9", "v2", "v3", "v0", "v4", "v5"] widened.ref,
    "invoke-virtual \x7bv9, v2, v3, v0, v4, v5\x7d, LMain;->run(JLjava/lang/String;D)V"⟩

/-- The arguments of the call. -/
def widenedArguments : List Argument :=
  [⟨-1, "v9", "LMain;"⟩, ⟨0, "v2", "J"⟩, ⟨1, "v0", "Ljava/lang/String;"⟩, ⟨2, "v4", "D"⟩]

/-- The string is behind the receiver and the long, in the fourth register of the call and of the parameters; the
last parameter is also in the register behind its first one. -/
theorem widenedCall_in_param_slots :
    Number.IsWord widened.paramSlots ∧ widenedCall.isStaticInvoke = widened.isStatic ∧
      widenedCall.arguments = .ok widenedArguments ∧
      (∀ a ∈ widenedArguments, ∃ k : Nat, ["v9", "v2", "v3", "v0", "v4", "v5"][k]? = some a.register ∧
        widened.paramRegister a.index = .ok (register 'p' k) ∧ widened.paramIndex? (register 'p' k) = some a.index) ∧
      splitRegister? "p5".toList = some ('p', 5) ∧ widened.paramIndex? "p5" = some 2 ∧
      ∃ start : Nat, widened.paramRegister 2 = .ok (register 'p' start) ∧
        start ≤ (5 : Int) ∧ (5 : Int) < start + widened.paramSize 2 := by
  have counts : Number.IsWord widened.paramSlots := by decide
  have static : widenedCall.isStaticInvoke = widened.isStatic := by cbv
  have found : widenedCall.arguments = .ok widenedArguments := rfl
  have split : splitRegister? "p5".toList = some ('p', 5) := by decide +kernel
  have holds : widened.paramIndex? "p5" = some 2 := by decide +kernel
  obtain ⟨calls, registers⟩ := arguments_in_param_slots counts
  have passed := calls widenedCall ["v9", "v2", "v3", "v0", "v4", "v5"] widened.ref widenedArguments rfl rfl static found
  have holder := (registers "p5" 5 split).2 2 holds
  exact ⟨counts, static, found, passed, split, holds, holder⟩

end SmaliTrace.ClassFile
