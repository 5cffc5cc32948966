import SmaliTrace.Proofs.ClassFile.Bodies
import SmaliTrace.Proofs.Index.Exclusion

/-!
What preparation makes known of the methods it leaves out. A method that takes part in it ends with a summary, with a
fault, or with nothing to execute. Of the faulty ones each that kept a line of its body is warned about and counted,
once, in whatever order the methods are prepared. A body that is bad from its first line on keeps none: its method is
left out in silence.
-/
namespace SmaliTrace.ClassFile.OpenMethod

variable {o o' : OpenMethod} {path : String} {n : Nat} {raw : List Char}

/-- A line adds one line or makes the fault, and not both. -/
theorem addLine_cases (path : String) (n : Nat) (raw : List Char) (sound : o.method.fault = none) :
    ((o.addLine path n raw).method.fault.isSome ∧ (o.addLine path n raw).method.lines = o.method.lines) ∨
      (o.addLine path n raw).method.fault = none ∧
        ∃ l, (o.addLine path n raw).method.lines = o.method.lines.push l := by
  unfold addLine
  simp only [sound, Option.isSome_none, Bool.false_eq_true, if_false]
  split
  · exact .inl ⟨rfl, rfl⟩
  · next i decoder _ =>
    have lines := (setCount_frame { o with decoder := decoder } path n i).1
    split
    · next faulty => exact .inl ⟨faulty, lines⟩
    · next sound' => exact .inr ⟨by simpa using sound', ⟨n, i⟩, by rw [← lines]⟩

/-- After a fault nothing is read. -/
theorem Continues.eq_of_faulty (continues : Continues path o o') (faulty : o.method.fault.isSome) : o' = o := by
  induction continues with
  | refl => rfl
  | line _ n raw ih =>
    rw [ih, addLine, if_pos faulty]

theorem isEmpty_lines_finish (o : OpenMethod) : o.finish.lines.isEmpty = o.method.lines.isEmpty := by
  unfold finish
  dsimp only
  split <;> simp [Array.isEmpty]

/-- A method has a fault and no line exactly if the first line of its body is the bad one. -/
theorem Continues.faulty_without_lines_iff (bare : o.method.lines = #[]) (sound : o.method.fault = none)
    (continues : Continues path (o.addLine path n raw) o') :
    (o'.finish.fault.isSome ∧ o'.finish.lines.isEmpty) ↔ (o.addLine path n raw).method.fault.isSome := by
  rw [fault_finish, isEmpty_lines_finish]
  rcases addLine_cases path n raw sound with ⟨faulty, lines⟩ | ⟨sound', l, lines⟩
  · rw [continues.eq_of_faulty faulty, lines, bare]
    simp [faulty]
  · have stays := continues.frame.1 0 l (by simp [lines, bare])
    have kept : o'.method.lines.isEmpty = false := by
      cases empty : o'.method.lines.isEmpty with
      | false => rfl
      | true => simp [Array.isEmpty_iff.mp empty] at stays
    simp [kept, sound']

end SmaliTrace.ClassFile.OpenMethod

namespace SmaliTrace.Index
open SmaliTrace.ClassFile SmaliTrace.Smali
open SmaliTrace.BlockGraph (MethodFault ofMethod)

variable {p : Program} {excluded : List String} {order : List MethodId} {x : Index} {id : MethodId} {m : Method}
  {e : MethodFault}

/-- What is known once the methods were prepared one after the other in the given order. -/
def preparedIn (p : Program) (excluded : List String) (order : List MethodId) : Preparation :=
  order.foldl (Preparation.visit p)
    { tally := ({} : Tally).add .classes (p.classes.toList.countP fun c => !isExcluded excluded c) }

theorem prepared_finishedIn : (finishedIn p excluded order).prepared = (preparedIn p excluded order).prepared :=
  (foldl_add_frame ..).2

/-! ### Summary, fault, or nothing to execute -/

/-- What a method comes to: it has a summary and no fault, and some line of it is executed; or it has a fault and no
summary; or it has neither, and no line of it is executed. -/
inductive Sorted (x : Index) (id : MethodId) (m : Method) : Prop
  | summarized (summary : x.isAnalyzed id = true) (sound : x.fault? id = none)
      (runs : m.lines.any CodeLine.executable = true)
  | faulty (unsummarized : x.isAnalyzed id = false) (faulty : (x.fault? id).isSome)
  | idle (unsummarized : x.isAnalyzed id = false) (sound : x.fault? id = none)
      (idles : m.lines.any CodeLine.executable = false)

theorem analyzable_eq_of_ofMethod {g : BlockGraph.Graph} (built : ofMethod m = .ok g) :
    analyzable m = m.lines.any CodeLine.executable := by
  unfold ofMethod at built
  split at built
  · cases built
  · next sound =>
    split at built
    · next made => simp [analyzable, sound, made, Except.isOk, Except.toBool]
    · cases built

theorem not_analyzable_of_ofMethod (broken : ofMethod m = .error e) : analyzable m = false := by
  rw [Bool.eq_false_iff, ne_eq, analyzable_iff]
  rintro ⟨g, built, -⟩
  simp [broken] at built

/-! ### Warnings -/

/-- The warning that a method is left out for its fault. -/
def exclusion (m : Method) (e : MethodFault) : LogEntry :=
  ⟨.warning, "Excluding " ++ m.text ++ ": " ++ e.message⟩

/-- The warning about a method: it has a fault, and it kept a line of its body. -/
def report? (x : Index) (id : MethodId) : Option LogEntry := do
  let m ← x.program.method? id
  let e ← x.fault? id
  if m.lines.isEmpty then none else some (exclusion m e)

/-- The warning that comes of preparing a method. -/
def warning? (m : Method) : Option LogEntry :=
  match ofMethod m with
  | .error e => if m.lines.isEmpty then none else some (exclusion m e)
  | .ok _ => none

/-- A visit logs the warning about its method, and counts it. -/
theorem visit_reports (isMethod : p.method? id = some m) (s : Preparation) :
    (s.visit p id).log = s.log ++ (warning? m).toList ∧
      (s.visit p id).tally.get .excludedMethods =
        if (warning? m).isSome then Number.wrap (s.tally.get .excludedMethods + 1)
        else s.tally.get .excludedMethods := by
  unfold Preparation.visit warning?
  simp only [isMethod, Tally.bump]
  by_cases empty : m.lines.isEmpty
  · cases ofMethod m <;> simp [empty, Tally.get_add]
  · cases ofMethod m with
    | error e => simp [empty, Tally.get_add, exclusion]
    | ok g => cases unlinked : g.unlinked <;> simp [empty, Tally.get_add, unlinked]

/-- A run of visits logs the warnings in the order of the visits, and counts them. -/
theorem foldl_visit_reports (known : ∀ id ∈ order, ∃ m, p.method? id = some m ∧ x.report? id = warning? m)
    (s : Preparation) {count : Int} (counted : s.tally.get .excludedMethods = Number.wrap count) :
    (order.foldl (Preparation.visit p) s).log = s.log ++ order.filterMap x.report? ∧
      (order.foldl (Preparation.visit p) s).tally.get .excludedMethods =
        Number.wrap (count + order.countP fun id => (x.report? id).isSome) := by
  induction order generalizing s count with
  | nil => simp [counted]
  | cons id order ih =>
    obtain ⟨m, isMethod, report⟩ := known id List.mem_cons_self
    obtain ⟨logged, tallied⟩ := visit_reports isMethod s
    have rest := ih fun id later => known id (List.mem_cons_of_mem _ later)
    cases warned : warning? m with
    | none =>
      rw [warned] at logged tallied report
      obtain ⟨log, tally⟩ := rest (s.visit p id) (tallied.trans counted)
      simp only [List.foldl_cons, log, tally, logged]
      simp [report]
    | some w =>
      rw [warned] at logged tallied report
      have next : (s.visit p id).tally.get .excludedMethods = Number.wrap (count + 1) := by
        simp only [tallied, counted, Option.isSome_some, if_true]
        exact Number.wrap_wrap_add _ _
      obtain ⟨log, tally⟩ := rest (s.visit p id) next
      simp only [List.foldl_cons, log, tally, logged]
      refine ⟨by simp [report], congrArg Number.wrap ?_⟩
      simp only [List.countP_cons, report, Option.isSome_some, if_true]
      omega

/-! ### One of the methods -/

section Candidate

variable (finished : order.Perm (candidates p excluded)) (inside : id ∈ candidates p excluded)
  (isMethod : p.method? id = some m)

include finished inside isMethod

theorem fault?_finishedIn : (finishedIn p excluded order).fault? id = some e ↔ ofMethod m = .error e := by
  have prepared : (finishedIn p excluded order).prepared[id]? = some (outcome m) := by
    rw [prepared_finishedIn]
    exact prepared_foldl_visit isMethod order (.inl (finished.mem_iff.mpr inside))
  unfold fault?
  rw [prepared, outcome]
  cases ofMethod m <;> simp

theorem fault?_finishedIn_eq_none {g : BlockGraph.Graph} (built : ofMethod m = .ok g) :
    (finishedIn p excluded order).fault? id = none := by
  cases found : (finishedIn p excluded order).fault? id with
  | none => rfl
  | some e => simp [(fault?_finishedIn finished inside isMethod).mp found] at built

theorem sorted_finishedIn : Sorted (finishedIn p excluded order) id m := by
  have analyzed : (finishedIn p excluded order).isAnalyzed id = analyzable m := by
    rw [Bool.eq_iff_iff, isAnalyzed_finishedIn finished, analyzedMethods_eq_filter, List.mem_filter, isMethod]
    simp [inside]
  cases made : ofMethod m with
  | error e =>
    rw [not_analyzable_of_ofMethod made] at analyzed
    exact .faulty analyzed (by simp [(fault?_finishedIn finished inside isMethod).mpr made])
  | ok g =>
    have sound := fault?_finishedIn_eq_none finished inside isMethod made
    rw [analyzable_eq_of_ofMethod made] at analyzed
    cases runs : m.lines.any CodeLine.executable with
    | true => exact .summarized (analyzed.trans runs) sound runs
    | false => exact .idle (analyzed.trans runs) sound runs

theorem report?_finishedIn : (finishedIn p excluded order).report? id = warning? m := by
  unfold report? warning?
  rw [program_finishedIn, isMethod]
  cases made : ofMethod m with
  | error e => simp [(fault?_finishedIn finished inside isMethod).mpr made]
  | ok g => simp [fault?_finishedIn_eq_none finished inside isMethod made]

/-- Of the methods with a fault, those without a warning are those that kept no line. -/
theorem unreported_iff :
    ((finishedIn p excluded order).fault? id).isSome ∧ (finishedIn p excluded order).report? id = none ↔
      m.fault.isSome ∧ m.lines.isEmpty := by
  rw [report?_finishedIn finished inside isMethod, warning?]
  cases made : ofMethod m with
  | error e =>
    have faulty := (fault?_finishedIn finished inside isMethod).mpr made
    by_cases empty : m.lines.isEmpty
    · have decoding : m.fault.isSome := by
        by_contra sound
        rw [Bool.not_eq_true, Option.isSome_eq_false_iff, Option.isNone_iff_eq_none] at sound
        simp [ofMethod_of_isEmpty empty sound] at made
      simp [faulty, empty, decoding]
    · simp [faulty, empty]
  | ok g =>
    have sound : m.fault = none := by
      cases decoding : m.fault with
      | none => rfl
      | some fault => simp [ofMethod, decoding] at made
    simp [fault?_finishedIn_eq_none finished inside isMethod made, sound]

end Candidate

/-! ### All methods -/

/-- Every method of a class that is not excluded ends with a summary, with a fault or with nothing to execute, and its
fault is that of its body or that of its blocks. The log holds one warning for each method that has a fault and kept
a line, in the order of preparation, and as many are counted. The faulty methods without a warning are those whose body
is bad in its first line. -/
theorem preparation_reports (finished : order.Perm (candidates p excluded)) :
    (∀ id ∈ candidates p excluded, ∃ m, p.method? id = some m ∧
      Sorted (finishedIn p excluded order) id m ∧
      (∀ e, (finishedIn p excluded order).fault? id = some e ↔ ofMethod m = .error e) ∧
      ∀ (o o' : OpenMethod) (path : String) (n : Nat) (raw : List Char),
        o.method.lines = #[] → o.method.fault = none → OpenMethod.Continues path (o.addLine path n raw) o' →
        m.lines = o'.finish.lines → m.fault = o'.finish.fault →
        (((finishedIn p excluded order).fault? id).isSome ∧ (finishedIn p excluded order).report? id = none ↔
          (o.addLine path n raw).method.fault.isSome)) ∧
      (preparedIn p excluded order).log = order.filterMap (finishedIn p excluded order).report? ∧
      (preparedIn p excluded order).tally.get .excludedMethods =
        Number.wrap ((candidates p excluded).countP fun id => ((finishedIn p excluded order).report? id).isSome) := by
  constructor
  · intro id inside
    obtain ⟨m, isMethod⟩ := Option.isSome_iff_exists.mp (mem_candidates.mp inside).1
    refine ⟨m, isMethod, sorted_finishedIn finished inside isMethod,
      fun e => fault?_finishedIn finished inside isMethod, ?_⟩
    intro o o' path n raw bare sound continues lines fault
    rw [unreported_iff finished inside isMethod, lines, fault]
    exact continues.faulty_without_lines_iff bare sound
  · have reports : ∀ id ∈ order, ∃ m, p.method? id = some m ∧
        (finishedIn p excluded order).report? id = warning? m := by
      intro id visited
      have inside := finished.mem_iff.mp visited
      obtain ⟨m, isMethod⟩ := Option.isSome_iff_exists.mp (mem_candidates.mp inside).1
      exact ⟨m, isMethod, report?_finishedIn finished inside isMethod⟩
    have counted : (({} : Tally).add .classes
        (p.classes.toList.countP fun c => !isExcluded excluded c)).get .excludedMethods = Number.wrap 0 := by
      simp [Tally.get_add, Number.wrap]
    obtain ⟨log, tally⟩ := foldl_visit_reports reports
      { tally := ({} : Tally).add .classes (p.classes.toList.countP fun c => !isExcluded excluded c) } counted
    rw [List.nil_append] at log
    rw [Int.zero_add, finished.countP_eq] at tally
    exact ⟨log, tally⟩

/-! ### Bodies read from a file -/

/-- A static method without parameters, when its declaration was read. -/
def opened (name : String) : OpenMethod where
  method := { owner := "LMain;", name := name, params := [], result := "V", flags := [.static] }

/-- The method that is read from the lines of a body. -/
def readBody (name : String) (lines : List String) : Method :=
  ((lines.zipIdx 5).foldl (fun o line => o.addLine "Main.smali" line.2 line.1.toList) (opened name)).finish

/-- A sound method, one that is bad in its second line, one with a jump to nowhere, one without a body and one that is
bad in its first line; and a bad method of an excluded class. -/
def mixedProgram : Program where
  classes := #[
    { name := "LMain;", path := "Main.smali"
      methods := #[readBody "sound" ["return-void"], readBody "late" ["nop", "bogus"],
        readBody "jump" ["goto :missing"], readBody "idle" [], readBody "early" ["bogus", "return-void"]] },
    { name := "Llib/Ext;", path := "Ext.smali", methods := #[readBody "other" ["goto :missing"]] }]

/-- The order in which the methods are done with. -/
def mixedOrder : List MethodId := [⟨0, 4⟩, ⟨0, 2⟩, ⟨0, 0⟩, ⟨0, 3⟩, ⟨0, 1⟩]

theorem perm_mixedOrder : mixedOrder.Perm (candidates mixedProgram ["Llib/"]) := by
  have listed : candidates mixedProgram ["Llib/"] = [⟨0, 0⟩, ⟨0, 1⟩, ⟨0, 2⟩, ⟨0, 3⟩, ⟨0, 4⟩] := by decide
  rw [listed]
  decide

/-- The warnings about the methods, when they are done with in that order. -/
theorem reports_mixedProgram :
    mixedOrder.filterMap (finishedIn mixedProgram ["Llib/"] mixedOrder).report? =
      [⟨.warning, "Excluding LMain;->jump()V: LMain;->jump()V:5: goto :missing: unresolved label :missing"⟩,
        ⟨.warning, "Excluding LMain;->late()V: Main.smali:6: cannot decode \"bogus\": unknown opcode bogus"⟩] := by
  have same : ∀ id ∈ mixedOrder, (finishedIn mixedProgram ["Llib/"] mixedOrder).report? id =
      (mixedProgram.method? id).bind warning? := by
    intro id visited
    have inside := perm_mixedOrder.mem_iff.mp visited
    obtain ⟨m, isMethod⟩ := Option.isSome_iff_exists.mp (mem_candidates.mp inside).1
    rw [report?_finishedIn perm_mixedOrder inside isMethod, isMethod, Option.bind_some]
  rw [List.filterMap_congr same]
  decide +kernel

/-- Of the three faults two are reported: that of the body with the bad first line is not. -/
theorem preparation_reports_mixedProgram :
    mixedOrder.Perm (candidates mixedProgram ["Llib/"]) ∧
      (preparedIn mixedProgram ["Llib/"] mixedOrder).log =
        [⟨.warning, "Excluding LMain;->jump()V: LMain;->jump()V:5: goto :missing: unresolved label :missing"⟩,
          ⟨.warning, "Excluding LMain;->late()V: Main.smali:6: cannot decode \"bogus\": unknown opcode bogus"⟩] ∧
      (preparedIn mixedProgram ["Llib/"] mixedOrder).tally.get .excludedMethods = 2 ∧
      Sorted (finishedIn mixedProgram ["Llib/"] mixedOrder) ⟨0, 4⟩ (readBody "early" ["bogus", "return-void"]) ∧
      ((finishedIn mixedProgram ["Llib/"] mixedOrder).fault? ⟨0, 4⟩).isSome ∧
      (finishedIn mixedProgram ["Llib/"] mixedOrder).report? ⟨0, 4⟩ = none := by
  obtain ⟨methods, log, tally⟩ := preparation_reports perm_mixedOrder
  rw [← perm_mixedOrder.countP_eq, ← List.length_filterMap_eq_countP, reports_mixedProgram] at tally
  obtain ⟨m, isMethod, sorted, -, unreported⟩ := methods ⟨0, 4⟩ (perm_mixedOrder.mem_iff.mp (by decide))
  have isEarly : readBody "early" ["bogus", "return-void"] = m := Option.some.inj isMethod
  subst isEarly
  have bad : ((opened "early").addLine "Main.smali" 5 "bogus".toList).method.fault.isSome := by decide +kernel
  have isRead : readBody "early" ["bogus", "return-void"] =
      (((opened "early").addLine "Main.smali" 5 "bogus".toList).addLine "Main.smali" 6 "return-void".toList).finish := by
    simp only [readBody, List.zipIdx_cons, List.zipIdx_nil, List.foldl_cons, List.foldl_nil]
  have early := (unreported (opened "early") _ "Main.smali" 5 "bogus".toList rfl rfl
    (.line .refl 6 "return-void".toList) (congrArg Method.lines isRead) (congrArg Method.fault isRead)).mpr bad
  exact ⟨perm_mixedOrder, log.trans reports_mixedProgram, tally, sorted, early⟩

/-- The method that is bad in its first line alone. -/
def earlyProgram : Program where
  classes := #[{ name := "LMain;", path := "Main.smali", methods := #[readBody "early" ["bogus", "return-void"]] }]

/-- One method has a fault, none is counted, and nothing is said of it. -/
theorem early_unreported :
    (candidates earlyProgram []).countP (fun id => ((ofProgram earlyProgram []).index.fault? id).isSome) = 1 ∧
      (ofProgram earlyProgram []).tally.get .excludedMethods = 0 ∧
      ∀ entry ∈ (ofProgram earlyProgram []).log, entry.level ≠ .warning := by
  -- one evaluation of the body serves all of these
  obtain ⟨bad, listed, uncounted, silent⟩ :
      ((readBody "early" ["bogus", "return-void"]).fault.isSome ∧
        (readBody "early" ["bogus", "return-void"]).lines.isEmpty) ∧
      candidates earlyProgram [] = [⟨0, 0⟩] ∧ (ofProgram earlyProgram []).tally.get .excludedMethods = 0 ∧
      ∀ entry ∈ (ofProgram earlyProgram []).log, entry.level ≠ .warning := by decide +kernel
  have faulty : ∀ id ∈ candidates earlyProgram [], ((ofProgram earlyProgram []).index.fault? id).isSome := by
    intro id inside
    have isEarly : id = ⟨0, 0⟩ := by simpa [listed] using inside
    subst isEarly
    exact ((unreported_iff (.refl _) inside rfl).mpr bad).1
  refine ⟨?_, uncounted, silent⟩
  rw [List.countP_eq_length.mpr faulty, listed]
  rfl

end SmaliTrace.Index
