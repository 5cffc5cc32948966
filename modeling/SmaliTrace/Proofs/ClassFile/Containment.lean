import SmaliTrace.Proofs.ClassFile.Annotations
import SmaliTrace.Proofs.ClassFile.Bodies
import SmaliTrace.Proofs.ClassFile.Declarations

/-!
What stands in the body of a method stays in it. Whatever the lines are, the reader comes out of them behind the end of
the method as it would behind any others: the rest of the class is read the same, and of the method itself what its
declaration says. Only a line that is fatal to the decoder ends the reading of the whole file.
-/
namespace SmaliTrace.ClassFile
open SmaliTrace.Smali

/-! ### Declarations of methods -/

/-- The methods are declared with the same owner, name, parameters, result and flags. -/
structure Method.DeclaredLike (m m' : Method) : Prop where
  ref : m.ref = m'.ref
  flags : m.flags = m'.flags

namespace Method.DeclaredLike

variable {m m' m'' : Method}

theorem refl (m : Method) : m.DeclaredLike m := ⟨rfl, rfl⟩

theorem symm (alike : m.DeclaredLike m') : m'.DeclaredLike m := ⟨alike.ref.symm, alike.flags.symm⟩

theorem trans (first : m.DeclaredLike m') (second : m'.DeclaredLike m'') : m.DeclaredLike m'' :=
  ⟨first.ref.trans second.ref, first.flags.trans second.flags⟩

theorem own (alike : m.DeclaredLike m') (owner : String) :
    ({ m with owner := owner } : Method).DeclaredLike { m' with owner := owner } := by
  obtain ⟨ref, flags⟩ := alike
  simp only [Method.ref, MethodRef.mk.injEq] at ref
  obtain ⟨_, name, params, result⟩ := ref
  exact ⟨by simp [Method.ref, name, params, result], flags⟩

end Method.DeclaredLike

namespace OpenMethod

theorem flags_setCount (o : OpenMethod) (path : String) (n : Nat) (i : Instruction) :
    (o.setCount path n i).method.flags = o.method.flags := by
  unfold setCount
  dsimp only
  repeat' split
  all_goals rfl

/-- A line of the body does not change the declaration. -/
theorem declaredLike_addLine (o : OpenMethod) (path : String) (n : Nat) (raw : List Char) :
    (o.addLine path n raw).method.DeclaredLike o.method := by
  refine ⟨o.ref_addLine path n raw, ?_⟩
  unfold addLine
  split
  · rfl
  · split
    · rfl
    · next i decoder _ =>
      dsimp only
      split <;> exact flags_setCount { o with decoder := decoder } path n i

theorem declaredLike_finish (o : OpenMethod) : o.finish.DeclaredLike o.method := by
  refine ⟨o.ref_finish, ?_⟩
  unfold finish
  dsimp only
  split <;> rfl

end OpenMethod

/-! ### Inside the body -/

namespace ParseState

variable {s t : ParseState} {o : OpenMethod} {n k : Nat} {raw : List Char} {lines : List (List Char)} {m : Method}

/-- A line of a body is passed over or added to it. -/
theorem advance_of_open (isOpen : s.current = some o) (goesOn : Text.trim raw ≠ ".end method".toList) :
    ∃ o', s.advance n raw = .ok { s with current := some o' } ∧ o'.method.DeclaredLike o.method := by
  unfold advance
  dsimp only
  split
  · refine ⟨o, ?_, .refl _⟩
    rw [← isOpen]
  · rw [isOpen]
    exact ⟨_, rfl, o.declaredLike_addLine s.cls.path n raw⟩

/-- The reader comes through the lines of a body with the method open and all else as it was, or it halts there. -/
theorem run_of_open (isOpen : s.current = some o) (goesOn : ∀ raw ∈ lines, Text.trim raw ≠ ".end method".toList) :
    (∃ o', s.run n lines = .ok { s with current := some o' } ∧ o'.method.DeclaredLike o.method) ∨
      ∃ fault, s.run n lines = .error (.halted fault) := by
  induction lines generalizing s o n with
  | nil =>
    refine .inl ⟨o, ?_, .refl _⟩
    rw [← isOpen]
    rfl
  | cons raw lines ih =>
    rw [List.forall_mem_cons] at goesOn
    obtain ⟨o', advances, alike⟩ := advance_of_open (n := n) isOpen goesOn.1
    rw [ParseState.run, step, advances]
    cases halts : halt? { s with current := some o' } with
    | some fault =>
      right
      exact ⟨fault, by simp [halts, bind, Except.bind]⟩
    | none =>
      simp only [halts, bind, Except.bind]
      rcases ih (s := { s with current := some o' }) (n := n + 1) rfl goesOn.2 with ⟨o'', ran, alike'⟩ | halted
      · exact .inl ⟨o'', ran, alike'.trans alike⟩
      · exact .inr halted

/-- The end of a method files it behind those that were read. -/
theorem step_end (isOpen : s.current = some o) (ends : Text.trim raw = ".end method".toList) :
    s.step n raw = .ok { s with current := none, cls.methods := s.cls.methods.push o.finish } := by
  have advances : s.advance n raw = .ok { s with current := none, cls.methods := s.cls.methods.push o.finish } := by
    unfold advance
    dsimp only
    rw [ends, if_neg (by decide), isOpen]
    rfl
  exact step_eq_ok.mpr ⟨advances, rfl⟩

end ParseState

/-! ### Behind the body -/

theorem setIfInBounds_push {α : Type} (items : Array α) (a b : α) :
    (items.push a).setIfInBounds items.size b = items.push b := by
  refine Array.ext_getElem? fun i => ?_
  rw [Array.getElem?_setIfInBounds, Array.getElem?_push, Array.getElem?_push, Array.size_push]
  grind

theorem push_setIfInBounds {α : Type} {items : Array α} {k : Nat} (bound : k < items.size) (a b : α) :
    (items.setIfInBounds k a).push b = (items.push b).setIfInBounds k a := by
  refine Array.ext_getElem? fun i => ?_
  rw [Array.getElem?_push, Array.getElem?_setIfInBounds, Array.getElem?_setIfInBounds, Array.size_setIfInBounds,
    Array.getElem?_push, Array.size_push]
  grind

/-- The class with another method at the position. -/
def ClassDecl.setMethod (k : Nat) (m : Method) (c : ClassDecl) : ClassDecl :=
  { c with methods := c.methods.setIfInBounds k m }

theorem ClassDecl.own_setMethod (k : Nat) (m : Method) (c : ClassDecl) :
    (c.setMethod k m).own = c.own.setMethod k { m with owner := c.name } := by
  simp only [setMethod, own, Array.map_setIfInBounds]

namespace ParseState

variable {s t : ParseState} {n k : Nat} {raw : List Char} {lines : List (List Char)}

/-- The state with another method at the position. -/
def setMethod (k : Nat) (m : Method) (s : ParseState) : ParseState := { s with cls := s.cls.setMethod k m }

/-- Declarations are read without a look at the methods that were read. -/
theorem declare_setMethod (s : ParseState) (k : Nat) (m : Method) (n : Nat) (text : List Char) :
    (s.setMethod k m).declare n text = (s.declare n text).map (setMethod k m) := by
  unfold declare
  dsimp only
  split
  · rfl
  repeat' split
  all_goals first
    | rfl
    | skip
  · cases parseField n text <;> rfl
  · cases parseMethod n (Text.words text) <;> rfl

theorem advance_setMethod (bound : k < s.cls.methods.size) (m : Method) (n : Nat) (raw : List Char) :
    (s.setMethod k m).advance n raw = (s.advance n raw).map (setMethod k m) := by
  unfold advance
  dsimp only
  split
  · rfl
  · have current : (s.setMethod k m).current = s.current := rfl
    have annotations : (s.setMethod k m).annotations = s.annotations := rfl
    rw [current, annotations]
    cases s.current with
    | some o =>
      dsimp only
      split
      · refine congrArg Except.ok ?_
        simp only [setMethod, ClassDecl.setMethod, push_setIfInBounds bound]
      · rfl
    | none =>
      dsimp only
      split
      · rfl
      · exact declare_setMethod s k m n (Text.trim raw)

theorem step_setMethod (bound : k < s.cls.methods.size) (m : Method) (n : Nat) (raw : List Char) :
    (s.setMethod k m).step n raw = (s.step n raw).map (setMethod k m) := by
  rw [step, step, advance_setMethod bound]
  cases s.advance n raw with
  | error e => rfl
  | ok next =>
    have same : (next.setMethod k m).halt? = next.halt? := rfl
    simp only [bind, Except.bind, Except.map, same]
    cases next.halt? <;> rfl

/-- No line takes methods away. -/
theorem size_methods_le_of_step (ran : s.step n raw = .ok t) : s.cls.methods.size ≤ t.cls.methods.size := by
  rcases (step_cases ran).2 with ⟨same, -⟩ | ⟨o, -, ended, -⟩ | ⟨o, -, same, -⟩ | ⟨-, same, -⟩
  case inr.inl =>
    rw [ended, Array.size_push]
    omega
  all_goals rw [same]

/-- Reading goes on in the same way whatever method stands at the position. -/
theorem run_setMethod (bound : k < s.cls.methods.size) (m : Method) (n : Nat) (lines : List (List Char)) :
    (s.setMethod k m).run n lines = (s.run n lines).map (setMethod k m) := by
  induction lines generalizing s n with
  | nil => rfl
  | cons raw lines ih =>
    rw [ParseState.run, ParseState.run, step_setMethod bound]
    cases first : s.step n raw with
    | error e => rfl
    | ok next =>
      have more := size_methods_le_of_step first
      exact ih (by omega) (n + 1)

theorem close_setMethod (k : Nat) (m : Method) (s : ParseState) :
    (s.setMethod k m).close = s.close.map (ClassDecl.setMethod k { m with owner := s.cls.name }) := by
  unfold close
  have current : (s.setMethod k m).current = s.current := rfl
  have name : (s.setMethod k m).cls.name = s.cls.name := rfl
  rw [current, name]
  cases s.current with
  | some o => rfl
  | none =>
    dsimp only
    split
    · rfl
    · exact congrArg Except.ok (ClassDecl.own_setMethod k m s.cls)

end ParseState

/-! ### Other bodies -/

/-- Both files are refused for one reason, or their classes differ in the method at the position only, and there not
in its declaration. -/
inductive SameOutside (k : Nat) : Except ParseError ClassDecl → Except ParseError ClassDecl → Prop
  | refused (e : ParseError) : SameOutside k (.error e) (.error e)
  | read {c : ClassDecl} {m m' : Method} (isMethod : c.methods[k]? = some m) (declared : m'.DeclaredLike m) :
      SameOutside k (.ok c) (.ok (c.setMethod k m'))

/-- The lines stand in the body of the method at the position: if the reader comes so far as the line before them, this
method is open there. None of them ends it, and the reader does not halt at one. -/
structure IsBody (path : String) (before body : List (List Char)) (k : Nat) : Prop where
  opened : ∀ s, ParseState.run { cls := { path := path } } 1 before = .ok s →
    s.current.isSome ∧ s.cls.methods.size = k
  goesOn : ∀ raw ∈ body, Text.trim raw ≠ ".end method".toList
  calm : ∀ s fault, ParseState.run { cls := { path := path } } 1 before = .ok s →
    s.run (1 + before.length) body ≠ .error (.halted fault)

/-- A reading that comes through the body does not halt in it. -/
theorem IsBody.of_run {path : String} {before body : List (List Char)} {k : Nat}
    (opened : ((ParseState.run { cls := { path := path } } 1 before).toOption.all fun s =>
      s.current.isSome && s.cls.methods.size = k) = true)
    (goesOn : ∀ raw ∈ body, Text.trim raw ≠ ".end method".toList)
    (through : (ParseState.run { cls := { path := path } } 1 (before ++ body)).isOk = true) :
    IsBody path before body k where
  opened s ran := by simpa using holds_of_all opened s ran
  goesOn := goesOn
  calm s fault ran halted := by
    rw [ParseState.run_append, ran] at through
    simp [bind, Except.bind, halted, Except.isOk, Except.toBool] at through

/-- The reader comes through the body, and its method is declared as it was. -/
theorem IsBody.exists_run {path : String} {before body : List (List Char)} {k : Nat} {s : ParseState} {o : OpenMethod}
    (isBody : IsBody path before body k)
    (ran : ParseState.run { cls := { path := path } } 1 before = .ok s) (isOpen : s.current = some o) :
    ∃ o', s.run (1 + before.length) body = .ok { s with current := some o' } ∧ o'.finish.DeclaredLike o.method := by
  rcases ParseState.run_of_open (n := 1 + before.length) isOpen isBody.goesOn with ⟨o', through, alike⟩ | ⟨fault, halted⟩
  · exact ⟨o', through, o'.declaredLike_finish.trans alike⟩
  · exact absurd halted (isBody.calm s fault ran)

/-- What is read behind a method does not depend on what became of its body. -/
theorem sameOutside_readLines {s : ParseState} {k : Nat} {m m' : Method} (filed : s.cls.methods[k]? = some m)
    (declared : m'.DeclaredLike m) (n : Nat) (lines : List Text.Line) :
    SameOutside k (s.readLines n lines) ((s.setMethod k m').readLines n lines) := by
  have bound : k < s.cls.methods.size := (Array.getElem?_eq_some_iff.mp filed).1
  rw [ParseState.readLines, ParseState.readLines, ParseState.run_setMethod bound]
  cases ran : s.run n ((lines.takeWhile Text.Line.fits).map Text.Line.text) with
  | error e => exact .refused e
  | ok t =>
    cases lines.all Text.Line.fits with
    | false => exact .refused .lineTooLong
    | true =>
      simp only [Except.map, bind, Except.bind, if_true, ParseState.close_setMethod]
      cases closed : t.close with
      | error e => exact .refused e
      | ok c =>
        obtain ⟨-, -, rfl⟩ := ParseState.close_eq_ok_iff.mp closed
        have isMethod : t.cls.own.methods[k]? = some { m with owner := t.cls.name } := by
          rw [ClassDecl.own, Array.getElem?_map, ParseState.getElem?_methods_of_run ran filed]
          rfl
        exact .read isMethod (declared.own t.cls.name)

/-- Other lines in the body of a method, as many of them, change nothing else in the class: it is refused or read as
before, with the same header, fields and other methods, and the method is declared as before. There has to be room for
the lines of the body; the rest of the file may be as it likes. -/
theorem sameOutside_of_isBody {path text text' : String} {before body body' after : List Text.Line} {ending : Text.Line}
    {k : Nat} (old : IsBody path (before.map Text.Line.text) (body.map Text.Line.text) k)
    (new : IsBody path (before.map Text.Line.text) (body'.map Text.Line.text) k)
    (length : body'.length = body.length) (fit : ∀ line ∈ body, line.fits = true) (fit' : ∀ line ∈ body', line.fits = true)
    (ends : Text.trim ending.text = ".end method".toList)
    (stands : Text.sizedLines text.toList = before ++ (body ++ ending :: after))
    (stands' : Text.sizedLines text'.toList = before ++ (body' ++ ending :: after)) :
    SameOutside k (parse path text) (parse path text') := by
  rw [parse, parse, stands, stands']
  by_cases heading : ∀ line ∈ before, line.fits = true
  swap
  · obtain ⟨e, refused⟩ := ParseState.exists_readLines_eq_error heading { cls := { path := path } } 1
    rw [ParseState.readLines_append_of_long heading, ParseState.readLines_append_of_long heading, refused]
    exact .refused e
  rw [ParseState.readLines_append heading, ParseState.readLines_append heading]
  cases ran : ParseState.run { cls := { path := path } } 1 (before.map Text.Line.text) with
  | error e => exact .refused e
  | ok s =>
    obtain ⟨isOpen, size⟩ := old.opened s ran
    obtain ⟨o, isOpen⟩ := Option.isSome_iff_exists.mp isOpen
    obtain ⟨o₁, through, declared⟩ := old.exists_run ran isOpen
    obtain ⟨o₂, through', declared'⟩ := new.exists_run ran isOpen
    rw [List.length_map] at through through'
    simp only [bind, Except.bind]
    rw [ParseState.readLines_append fit, ParseState.readLines_append fit', through, through', length]
    simp only [bind, Except.bind]
    rw [ParseState.readLines_cons, ParseState.readLines_cons]
    by_cases endingFits : ending.fits = true
    swap
    · rw [if_neg endingFits, if_neg endingFits]
      exact .refused .lineTooLong
    rw [if_pos endingFits, if_pos endingFits, ParseState.step_end rfl ends, ParseState.step_end rfl ends]
    -- the one state is the other with its last method replaced, and so it is further on
    have replaced : { s with current := none, cls.methods := s.cls.methods.push o₂.finish } =
        ParseState.setMethod k o₂.finish { s with current := none, cls.methods := s.cls.methods.push o₁.finish } := by
      simp only [ParseState.setMethod, ClassDecl.setMethod, ← size, setIfInBounds_push]
    simp only [bind, Except.bind, replaced]
    exact sameOutside_readLines (by simp [← size]) (declared'.trans declared.symm) _ _

/-! ### A class with another body -/

theorem SameOutside.isOk_eq {k : Nat} {old new : Except ParseError ClassDecl} (same : SameOutside k old new) :
    new.isOk = old.isOk := by
  cases same <;> rfl

/-- A class up to the first line of its first body. -/
def runHeading : List String :=
  [".class LMain;", ".field key:I = 0x1", ".method static run(I)I"]

/-- The rest of the class behind the end of its first body. -/
def otherMethod : List String :=
  [".method other(J)V", "    return-void", ".end method"]

/-- The class with the lines in its first body. -/
def classAround (body : List String) : String := fileText (runHeading ++ (body ++ ".end method" :: otherMethod))

def soundBody : List String := ["    .registers 2", "    add-int/lit8 v0, p0, 0x1", "    return v0"]

/-- A payload that does not end, and an annotation in place of its labels. -/
def unfinishedBody : List String := ["    .registers 2", "    .packed-switch 0x0", "    .annotation runtime LNote;"]

/-- A call with more registers than there is room for. -/
def fatalBody : List String :=
  ["    .registers 2", "    invoke-static/range \x7bv0 .. v9223372036854775806\x7d, LSink;->take()V", "    return v0"]

/-- The lines as the reader takes them. -/
def linesOf (lines : List String) : List (List Char) := lines.map String.toList

theorem linesOf_of_spelled {lines : List String} {spelled : List (List Char)}
    (spells : List.Forall₂ (fun line letters => line = String.ofList letters) lines spelled) : linesOf lines = spelled :=
  Text.map_toList_of_spelled spells

/-- Behind the heading the first method is open, and a reading comes through either body. -/
theorem runs_runHeading :
    ((ParseState.run { cls := { path := "Main.smali" } } 1 (linesOf runHeading)).toOption.all fun s =>
      s.current.isSome && s.cls.methods.size = 0) = true ∧
    ∀ body ∈ [soundBody, unfinishedBody], (∀ raw ∈ linesOf body, Text.trim raw ≠ ".end method".toList) ∧
      (ParseState.run { cls := { path := "Main.smali" } } 1 (linesOf runHeading ++ linesOf body)).isOk = true := by
  simp only [List.forall_mem_cons, List.not_mem_nil, false_imp_iff, implies_true, and_true]
  repeat rw [linesOf_of_spelled (by repeat' constructor)]
  decide +kernel

theorem isBody_of_mem {body : List String} (isCalm : body ∈ [soundBody, unfinishedBody]) :
    IsBody "Main.smali" (linesOf runHeading) (linesOf body) 0 :=
  have ⟨goesOn, through⟩ := runs_runHeading.2 body isCalm
  .of_run runs_runHeading.1 goesOn through

theorem isBody_soundBody : IsBody "Main.smali" (linesOf runHeading) (linesOf soundBody) 0 :=
  isBody_of_mem (by simp)

theorem isBody_unfinishedBody : IsBody "Main.smali" (linesOf runHeading) (linesOf unfinishedBody) 0 :=
  isBody_of_mem (by simp)

theorem sizedLines_classAround {body : List String}
    (isBody : body = soundBody ∨ body = unfinishedBody ∨ body = fatalBody) :
    Text.sizedLines (classAround body).toList = (linesOf runHeading).map .ofText ++
      ((linesOf body).map .ofText ++ .ofText ".end method".toList :: (linesOf otherMethod).map .ofText) := by
  have free : ∀ letters ∈ linesOf runHeading ++ (linesOf soundBody ++ linesOf unfinishedBody ++ linesOf fatalBody ++
      ".end method".toList :: linesOf otherMethod), '\n' ∉ letters ∧ '\r' ∉ letters := by
    repeat rw [linesOf_of_spelled (by repeat' constructor)]
    decide +kernel
  have among : linesOf body ⊆ linesOf soundBody ++ linesOf unfinishedBody ++ linesOf fatalBody := by
    rcases isBody with rfl | rfl | rfl <;> simp
  rw [← List.map_cons, ← List.map_append, ← List.map_append]
  refine sizedLines_fileText (by simp only [List.map_append, List.map_cons, linesOf]) fun letters inside => ?_
  simp only [List.mem_append] at inside
  exact free letters (List.mem_append.mpr (inside.imp_right fun inside =>
    List.mem_append.mpr (inside.imp_left fun inside => among inside)))

/-- There is room for the lines of each body. -/
theorem fits_linesOf : ∀ body ∈ [soundBody, unfinishedBody, fatalBody],
    ∀ line ∈ (linesOf body).map Text.Line.ofText, line.fits = true := by
  simp only [List.forall_mem_cons, List.not_mem_nil, false_imp_iff, implies_true, and_true]
  repeat rw [linesOf_of_spelled (by repeat' constructor)]
  decide +kernel

/-- The method with the unfinished payload has a fault, and the class is read as if it had none. -/
theorem sameOutside_unfinishedBody :
    IsBody "Main.smali" (linesOf runHeading) (linesOf soundBody) 0 ∧
    IsBody "Main.smali" (linesOf runHeading) (linesOf unfinishedBody) 0 ∧
    (∀ body ∈ [soundBody, unfinishedBody], ∀ line ∈ (linesOf body).map Text.Line.ofText, line.fits = true) ∧
    membersOf (parse "Main.smali" (classAround unfinishedBody)) = (1, [true, false]) ∧
    SameOutside 0 (parse "Main.smali" (classAround soundBody)) (parse "Main.smali" (classAround unfinishedBody)) := by
  refine ⟨isBody_soundBody, isBody_unfinishedBody, fun body isBody =>
    fits_linesOf body (List.subset_append_left [soundBody, unfinishedBody] [fatalBody] isBody), ?_, ?_⟩
  · rw [parse, sizedLines_classAround (.inr (.inl rfl))]
    repeat rw [linesOf_of_spelled (by repeat' constructor)]
    decide +kernel
  · have isHeading := Text.map_text_ofText (linesOf runHeading)
    have old : IsBody "Main.smali" (((linesOf runHeading).map .ofText).map Text.Line.text)
        (((linesOf soundBody).map .ofText).map Text.Line.text) 0 := by
      rw [isHeading, Text.map_text_ofText]
      exact isBody_soundBody
    have new : IsBody "Main.smali" (((linesOf runHeading).map .ofText).map Text.Line.text)
        (((linesOf unfinishedBody).map .ofText).map Text.Line.text) 0 := by
      rw [isHeading, Text.map_text_ofText]
      exact isBody_unfinishedBody
    have length : (linesOf unfinishedBody).length = (linesOf soundBody).length := by decide
    have ends : Text.trim (Text.Line.ofText ".end method".toList).text = ".end method".toList := by
      rw [Text.Line.ofText]
      decide
    exact sameOutside_of_isBody old new (by simpa only [List.length_map] using length) (fits_linesOf _ (by simp))
      (fits_linesOf _ (by simp)) ends (sizedLines_classAround (.inl rfl)) (sizedLines_classAround (.inr (.inl rfl)))

/-- The fatal line stands in the body like any other, and the file is refused for it. -/
theorem fatalBody_not_contained :
    (∀ raw ∈ linesOf fatalBody, Text.trim raw ≠ ".end method".toList) ∧
    (linesOf fatalBody).length = (linesOf soundBody).length ∧
    IsBody "Main.smali" (linesOf runHeading) (linesOf soundBody) 0 ∧
    (∀ body ∈ [soundBody, fatalBody], (∀ line ∈ (linesOf body).map Text.Line.ofText, line.fits = true) ∧
      Text.sizedLines (classAround body).toList = (linesOf runHeading).map .ofText ++
        ((linesOf body).map .ofText ++ .ofText ".end method".toList :: (linesOf otherMethod).map .ofText)) ∧
    ¬ SameOutside 0 (parse "Main.smali" (classAround soundBody)) (parse "Main.smali" (classAround fatalBody)) := by
  refine ⟨?_, by decide, isBody_soundBody, ?_, ?_⟩
  · rw [linesOf_of_spelled (by repeat' constructor)]
    decide +kernel
  · intro body isBody
    simp only [List.mem_cons, List.not_mem_nil, or_false] at isBody
    exact ⟨fits_linesOf body (by rcases isBody with rfl | rfl <;> simp), sizedLines_classAround (isBody.imp_right .inr)⟩
  · intro same
    have outcomes := same.isOk_eq
    rw [parse, parse, sizedLines_classAround (.inl rfl), sizedLines_classAround (.inr (.inr rfl))] at outcomes
    repeat rw [linesOf_of_spelled (by repeat' constructor)] at outcomes
    exact absurd outcomes (by decide +kernel)

end SmaliTrace.ClassFile
