import SmaliTrace.Proofs.ClassFile.Reading

/-!
From a line of the file to a line of a body. The reader adds a line to the method that is open, and from there on the
method only grows until it is finished: a line that was decoded stays at its place, and so does a fault.
-/
namespace SmaliTrace.ClassFile
open SmaliTrace.Smali

namespace OpenMethod

variable {o o' : OpenMethod} {path : String}

/-- The open method, after the reader has added more lines. -/
inductive Continues (path : String) (o : OpenMethod) : OpenMethod → Prop
  | refl : Continues path o o
  | line {o' : OpenMethod} (before : Continues path o o') (n : Nat) (raw : List Char) :
      Continues path o (o'.addLine path n raw)

theorem Continues.cons {n : Nat} {raw : List Char} (continues : Continues path (o.addLine path n raw) o') :
    Continues path o o' := by
  induction continues with
  | refl => exact .line .refl n raw
  | line _ n raw ih => exact .line ih n raw

/-- A count that is read changes neither the lines nor a fault that is there. -/
theorem setCount_frame (o : OpenMethod) (path : String) (n : Nat) (i : Instruction) :
    (o.setCount path n i).method.lines = o.method.lines ∧
      (o.method.fault.isSome → (o.setCount path n i).method.fault.isSome) := by
  unfold setCount
  split
  · dsimp only
    split
    · exact ⟨rfl, fun _ => rfl⟩
    · split <;> exact ⟨rfl, id⟩
  · exact ⟨rfl, id⟩

/-- A line is added behind the others, and to a method without a fault only. -/
theorem addLine_frame (o : OpenMethod) (path : String) (n : Nat) (raw : List Char) :
    (∀ (i : Nat) (l : CodeLine), o.method.lines[i]? = some l → (o.addLine path n raw).method.lines[i]? = some l) ∧
      (o.method.fault.isSome → (o.addLine path n raw).method.fault.isSome) := by
  unfold addLine
  split
  · exact ⟨fun _ _ => id, id⟩
  · next sound =>
    refine ⟨fun i l isLine => ?_, fun faulty => absurd faulty sound⟩
    split
    · exact isLine
    · next instruction decoder _ =>
      have lines := (setCount_frame { o with decoder := decoder } path n instruction).1
      dsimp only
      split
      · rw [lines]
        exact isLine
      · obtain ⟨bound, -⟩ := Array.getElem?_eq_some_iff.mp isLine
        rw [lines, Array.getElem?_push, if_neg (Nat.ne_of_lt bound)]
        exact isLine

theorem Continues.frame (continues : Continues path o o') :
    (∀ (i : Nat) (l : CodeLine), o.method.lines[i]? = some l → o'.method.lines[i]? = some l) ∧
      (o.method.fault.isSome → o'.method.fault.isSome) := by
  induction continues with
  | refl => exact ⟨fun _ _ => id, id⟩
  | @line o' _ n raw ih =>
    have next := addLine_frame o' path n raw
    exact ⟨fun i l isLine => next.1 i l (ih.1 i l isLine), fun faulty => next.2 (ih.2 faulty)⟩

theorem fault_finish (o : OpenMethod) : o.finish.fault = o.method.fault := by
  unfold finish
  dsimp only
  split <;> rfl

/-- Finishing respells the registers of the lines. -/
theorem getElem?_lines_finish {i : Nat} {l : CodeLine} (isLine : o.method.lines[i]? = some l) :
    o.finish.lines[i]? =
      some { l with instruction.operation := l.operation.mapRegisters o.finish.canonical } := by
  unfold finish
  dsimp only
  split <;> (rw [Array.getElem?_map, isLine]; rfl)

end OpenMethod

namespace ParseState

variable {s s' : ParseState} {o : OpenMethod} {n : Nat} {raw : List Char} {lines : List (List Char)}

theorem run_append_eq_ok {before : List (List Char)} : s.run n (before ++ lines) = .ok s' ↔
    ∃ next, s.run n before = .ok next ∧ next.run (n + before.length) lines = .ok s' := by
  rw [run_append]
  cases s.run n before <;> simp [bind, Except.bind]

/-- Methods that were read stay at their places. -/
theorem getElem?_methods_of_run {i : Nat} {m : Method} (ran : s.run n lines = .ok s')
    (isMethod : s.cls.methods[i]? = some m) : s'.cls.methods[i]? = some m := by
  induction lines generalizing s n with
  | nil =>
    cases ran
    exact isMethod
  | cons raw lines ih =>
    obtain ⟨next, first, rest⟩ := run_cons_eq_ok.mp ran
    refine ih rest ?_
    rcases (step_cases first).2 with ⟨same, -⟩ | ⟨o, -, ended, -⟩ | ⟨o, -, same, -⟩ | ⟨-, same, -⟩
    case inr.inl =>
      obtain ⟨bound, -⟩ := Array.getElem?_eq_some_iff.mp isMethod
      rw [ended, Array.getElem?_push, if_neg (by omega), isMethod]
    all_goals rw [same, isMethod]

/-- The open method ends as one that continues it, at the place behind the methods that were read. -/
theorem exists_finish_of_run (ran : s.run n lines = .ok s') (isOpen : s.current = some o) (ended : s'.current = none) :
    ∃ o', OpenMethod.Continues s.cls.path o o' ∧ s'.cls.methods[s.cls.methods.size]? = some o'.finish := by
  induction lines generalizing s o n with
  | nil =>
    cases ran
    simp [isOpen] at ended
  | cons raw lines ih =>
    obtain ⟨next, first, rest⟩ := run_cons_eq_ok.mp ran
    obtain ⟨path, ⟨same, current⟩ | ⟨o', isOpen', push, -⟩ | ⟨o', isOpen', same, current⟩ | ⟨isClosed, -⟩⟩ :=
      step_cases first
    · rw [← path, ← same]
      exact ih rest (current.trans isOpen)
    · cases isOpen.symm.trans isOpen'
      refine ⟨o, .refl, getElem?_methods_of_run rest ?_⟩
      rw [push, Array.getElem?_push, if_pos rfl]
    · cases isOpen.symm.trans isOpen'
      obtain ⟨o', continues, isMethod⟩ := ih rest current
      rw [path] at continues
      exact ⟨o', continues.cons, same ▸ isMethod⟩
    · cases isClosed.symm.trans isOpen

end ParseState

/-- The reader of a file comes to a line in the open method, outside payloads and annotations. -/
structure ReadsInBody (path text : String) (before : List (List Char)) (raw : List Char) (s : ParseState)
    (o : OpenMethod) : Prop where
  stands : ∃ after, Text.lines text.toList = before ++ raw :: after
  ran : ParseState.run { cls := { path := path } } 1 before = .ok s
  isOpen : s.current = some o
  outside : o.decoder.payload = none ∧ o.decoder.annotations = 0

/-- The line is not taken for a blank one, for a comment or for the end of a method. -/
structure InBody (raw : List Char) : Prop where
  read : ((Text.trim raw).isEmpty || Text.startsWith "#" (Text.trim raw)) = false
  goesOn : Text.trim raw ≠ ".end method".toList

theorem InBody.advance_eq {raw : List Char} (inBody : InBody raw) {s : ParseState} {o : OpenMethod}
    (isOpen : s.current = some o) (n : Nat) :
    s.advance n raw = .ok { s with current := some (o.addLine s.cls.path n raw) } := by
  unfold ParseState.advance
  dsimp only
  rw [inBody.read, if_neg Bool.false_ne_true, isOpen]
  dsimp only
  rw [if_neg inBody.goesOn]

/-- A line that is decoded is added, if there is no fault afterwards. -/
theorem OpenMethod.lines_addLine {o : OpenMethod} {path : String} {n : Nat} {raw : List Char} {i : Instruction}
    {decoder : Decoder} (decoded : o.decoder.decode raw = .ok (i, decoder))
    (noCount : i.op ≠ ".registers" ∧ i.op ≠ ".locals") (sound : (o.addLine path n raw).method.fault = none) :
    (o.addLine path n raw).method.lines = o.method.lines.push ⟨n, i⟩ := by
  unfold addLine at sound ⊢
  split at sound
  · next faulty => simp [sound] at faulty
  · next sound' =>
    have same : setCount { o with decoder := decoder } path n i = { o with decoder := decoder } := by
      unfold setCount
      rw [if_neg (by simpa using noCount)]
    rw [if_neg sound', decoded]
    dsimp only
    rw [same, if_neg sound']

/-- A line that is decoded stands in the body of its method, under its number in the file. -/
theorem exists_line_of_readsInBody {path text : String} {before : List (List Char)} {raw : List Char} {s : ParseState}
    {o : OpenMethod} {i : Instruction} {decoder : Decoder} {c : ClassDecl} {m : Method}
    (reads : ReadsInBody path text before raw s o) (inBody : InBody raw)
    (decoded : o.decoder.decode raw = .ok (i, decoder)) (noCount : i.op ≠ ".registers" ∧ i.op ≠ ".locals")
    (parsed : parse path text = .ok c) (isMethod : c.methods[s.cls.methods.size]? = some m) (sound : m.fault = none) :
    ∃ (index : Nat) (l : CodeLine), m.lines[index]? = some l ∧ l.number = before.length + 1 ∧
      l.instruction = { i with operation := i.operation.mapRegisters m.canonical } := by
  obtain ⟨final, ran, ended, -, rfl⟩ := exists_run_of_parse parsed
  obtain ⟨after, stands⟩ := reads.stands
  rw [stands] at ran
  obtain ⟨s', ran', ran⟩ := ParseState.run_append_eq_ok.mp ran
  cases reads.ran.symm.trans ran'
  obtain ⟨next, stepped, rest⟩ := ParseState.run_cons_eq_ok.mp ran
  cases (inBody.advance_eq reads.isOpen _).symm.trans (ParseState.step_eq_ok.mp stepped).1
  obtain ⟨o', continues, finished⟩ := ParseState.exists_finish_of_run rest rfl ended
  dsimp only at finished
  have isMethod' : final.cls.own.methods[s.cls.methods.size]? = some { o'.finish with owner := final.cls.name } := by
    rw [ClassDecl.own, Array.getElem?_map, finished]
    rfl
  cases isMethod.symm.trans isMethod'
  have sound' : (o.addLine s.cls.path (1 + before.length) raw).method.fault = none := by
    have finished : o'.method.fault = none := o'.fault_finish.symm.trans sound
    cases fault : (o.addLine s.cls.path (1 + before.length) raw).method.fault with
    | none => rfl
    | some _ => simpa [finished] using continues.frame.2 (Option.isSome_of_eq_some fault)
  have isLine : (o.addLine s.cls.path (1 + before.length) raw).method.lines[o.method.lines.size]? =
      some ⟨1 + before.length, i⟩ := by
    rw [OpenMethod.lines_addLine decoded noCount sound', Array.getElem?_push_size]
  exact ⟨_, _, OpenMethod.getElem?_lines_finish (continues.frame.1 _ _ isLine), Nat.add_comm .., rfl⟩

end SmaliTrace.ClassFile
