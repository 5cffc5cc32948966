import SmaliTrace.ClassFile.Parser
import SmaliTrace.Proofs.Text.Cut

/-!
What a line of a class file does to the reader, and so where the methods of the class come from: each was declared, its
lines are lines of the file, and it was finished and given its owner. So any property that holds of a declaration and
that neither the lines of the body, its end, nor the naming of the owner take away holds of all of them.
-/
namespace SmaliTrace.ClassFile
open SmaliTrace.Smali

namespace ParseState

variable {s s' : ParseState} {n : Nat} {raw : List Char} {lines : List (List Char)}

/-! ### What one line does -/

/-- Outside methods a line leaves those that were read as they are, and it may open a new one. -/
theorem declare_cases {text : List Char} (ran : s.declare n text = .ok s') :
    s'.cls.path = s.cls.path ∧ s'.cls.methods = s.cls.methods ∧
      (s'.current = s.current ∨ ∃ words m, parseMethod n words = .ok m ∧ s'.current = some { method := m }) := by
  unfold ParseState.declare at ran
  dsimp only at ran
  repeat' split at ran
  all_goals first
    | (cases ran; exact ⟨rfl, rfl, .inl rfl⟩)
    | simp at ran
    | skip
  · rcases read : parseField n text with error | f
    · simp [read, bind, Except.bind] at ran
    · simp only [read, bind, Except.bind, Except.ok.injEq] at ran
      subst ran
      exact ⟨rfl, rfl, .inl rfl⟩
  · rcases read : parseMethod n (Text.words text) with error | m
    · simp [read, bind, Except.bind] at ran
    · simp only [read, bind, Except.bind, Except.ok.injEq] at ran
      subst ran
      exact ⟨rfl, rfl, .inr ⟨_, m, read, rfl⟩⟩

/-- The reader goes on behind a line that is not fatal. -/
theorem step_eq_ok : s.step n raw = .ok s' ↔ s.advance n raw = .ok s' ∧ s'.halt? = none := by
  rw [ParseState.step]
  cases s.advance n raw with
  | error e => simp [bind, Except.bind]
  | ok next =>
    simp only [bind, Except.bind, Except.ok.injEq]
    cases fatal : next.halt? with
    | none =>
      simp only [Except.ok.injEq, iff_self_and]
      exact fun same => same ▸ fatal
    | some fault =>
      refine ⟨nofun, fun ⟨same, goesOn⟩ => ?_⟩
      rw [← same, fatal] at goesOn
      cases goesOn

/-- A line is passed over as far as methods go, ends the open method, is added to it, or opens one. -/
theorem step_cases (ran : s.step n raw = .ok s') : s'.cls.path = s.cls.path ∧
    (s'.cls.methods = s.cls.methods ∧ s'.current = s.current ∨
      (∃ o, s.current = some o ∧ s'.cls.methods = s.cls.methods.push o.finish ∧ s'.current = none) ∨
      (∃ o, s.current = some o ∧ s'.cls.methods = s.cls.methods ∧
        s'.current = some (o.addLine s.cls.path n raw)) ∨
      s.current = none ∧ s'.cls.methods = s.cls.methods ∧
        ∃ words m, parseMethod n words = .ok m ∧ s'.current = some { method := m }) := by
  replace ran := (step_eq_ok.mp ran).1
  unfold ParseState.advance at ran
  dsimp only at ran
  split at ran
  · cases ran
    exact ⟨rfl, .inl ⟨rfl, rfl⟩⟩
  split at ran
  · next o isOpen =>
    split at ran
    · cases ran
      exact ⟨rfl, .inr (.inl ⟨o, isOpen, rfl, rfl⟩)⟩
    · cases ran
      exact ⟨rfl, .inr (.inr (.inl ⟨o, isOpen, rfl, rfl⟩))⟩
  · next isClosed =>
    split at ran
    · cases ran
      exact ⟨rfl, .inl ⟨rfl, rfl⟩⟩
    · obtain ⟨path, methods, same | opened⟩ := declare_cases ran
      · exact ⟨path, .inl ⟨methods, same⟩⟩
      · exact ⟨path, .inr (.inr (.inr ⟨isClosed, methods, opened⟩))⟩

theorem run_cons_eq_ok : s.run n (raw :: lines) = .ok s' ↔
    ∃ next, s.step n raw = .ok next ∧ next.run (n + 1) lines = .ok s' := by
  rw [ParseState.run]
  cases s.step n raw <;> simp [bind, Except.bind]

theorem run_append (s : ParseState) (n : Nat) (before lines : List (List Char)) :
    s.run n (before ++ lines) = s.run n before >>= fun t => t.run (n + before.length) lines := by
  induction before generalizing s n with
  | nil => rfl
  | cons raw before ih =>
    have shift : n + (before.length + 1) = n + 1 + before.length := by omega
    rw [List.cons_append, ParseState.run, ParseState.run, List.length_cons, shift]
    cases s.step n raw with
    | error e => rfl
    | ok next => exact ih next (n + 1)

/-- The file is read if no method is open at its end and the class has a name. -/
theorem close_eq_ok_iff {c : ClassDecl} :
    s.close = .ok c ↔ s.current = none ∧ s.cls.name ≠ "" ∧ c = s.cls.own := by
  unfold close
  cases s.current with
  | some o => simp
  | none =>
    by_cases named : s.cls.name = ""
    · simp [named]
    · simp [named, eq_comm]

/-! ### The room for a line -/

theorem readLines_cons (s : ParseState) (n : Nat) (line : Text.Line) (rest : List Text.Line) :
    s.readLines n (line :: rest) =
      if line.fits then s.step n line.text >>= fun t => t.readLines (n + 1) rest else .error .lineTooLong := by
  by_cases fit : line.fits = true
  · rw [if_pos fit, readLines, List.takeWhile_cons_of_pos fit, List.map_cons, run, List.all_cons, fit, Bool.true_and,
      bind_assoc]
    rfl
  · rw [if_neg fit, readLines, List.takeWhile_cons_of_neg fit, List.all_cons, Bool.eq_false_iff.mpr fit, Bool.false_and]
    rfl

/-- Lines that there is room for are read one after another. -/
theorem readLines_append {before : List Text.Line} (fit : ∀ line ∈ before, line.fits = true) (s : ParseState) (n : Nat)
    (rest : List Text.Line) : s.readLines n (before ++ rest) =
      s.run n (before.map Text.Line.text) >>= fun t => t.readLines (n + before.length) rest := by
  have taken : (before ++ rest).takeWhile Text.Line.fits = before ++ rest.takeWhile Text.Line.fits :=
    List.takeWhile_append_of_pos fit
  have all : (before ++ rest).all Text.Line.fits = rest.all Text.Line.fits := by
    rw [List.all_append, List.all_eq_true.mpr fit, Bool.true_and]
  rw [readLines, taken, all, List.map_append, run_append, List.length_map, bind_assoc]
  rfl

theorem all_fits_eq_false {lines : List Text.Line} (long : ¬ ∀ line ∈ lines, line.fits = true) :
    lines.all Text.Line.fits = false := by
  rwa [Bool.eq_false_iff, Ne, List.all_eq_true]

/-- What comes behind a line that there is no room for is not read. -/
theorem readLines_append_of_long {before : List Text.Line} (long : ¬ ∀ line ∈ before, line.fits = true)
    (s : ParseState) (n : Nat) (rest : List Text.Line) : s.readLines n (before ++ rest) = s.readLines n before := by
  have taken : (before ++ rest).takeWhile Text.Line.fits = before.takeWhile Text.Line.fits := by
    refine List.takeWhile_append.trans (if_neg fun whole => long fun line mem => ?_)
    rw [← (List.takeWhile_prefix Text.Line.fits).eq_of_length whole] at mem
    exact List.all_eq_true.mp List.all_takeWhile line mem
  rw [readLines, readLines, taken, List.all_append, all_fits_eq_false long, Bool.false_and]

/-- A file with such a line is refused. -/
theorem exists_readLines_eq_error {lines : List Text.Line} (long : ¬ ∀ line ∈ lines, line.fits = true)
    (s : ParseState) (n : Nat) : ∃ e, s.readLines n lines = .error e := by
  rw [readLines, all_fits_eq_false long]
  cases s.run n ((lines.takeWhile Text.Line.fits).map Text.Line.text) with
  | error e => exact ⟨e, rfl⟩
  | ok t => exact ⟨_, rfl⟩

end ParseState

theorem ok_of_toOption {ε α : Type} {x : Except ε α} {a : α} (isValue : x.toOption = some a) : x = .ok a := by
  cases x with
  | error e => cases isValue
  | ok b => exact congrArg Except.ok (Option.some.inj isValue)

/-- A file whose lines there is room for is read line by line to its end. -/
theorem parse_of_fits (path : String) {text : String} (fit : Text.Fits text.toList) : parse path text =
    ParseState.run { cls := { path := path } } 1 (Text.lines text.toList) >>= ParseState.close := by
  rw [parse, ← List.append_nil (Text.sizedLines _), ParseState.readLines_append fit, Text.map_text_sizedLines]
  rfl

/-- A class that is read from a file is what the reader has when it has read all lines, no method is open and the class
has a name. -/
theorem exists_run_of_parse {path text : String} {c : ClassDecl} (parsed : parse path text = .ok c) :
    ∃ s : ParseState, ParseState.run { cls := { path := path } } 1 (Text.lines text.toList) = .ok s ∧
      s.current = none ∧ s.cls.name ≠ "" ∧ c = s.cls.own := by
  by_cases fit : Text.Fits text.toList
  · rw [parse_of_fits path fit] at parsed
    cases ran : ParseState.run { cls := { path := path } } 1 (Text.lines text.toList) with
    | error e => simp [ran, bind, Except.bind] at parsed
    | ok s =>
      simp only [ran, bind, Except.bind] at parsed
      exact ⟨s, rfl, ParseState.close_eq_ok_iff.mp parsed⟩
  · obtain ⟨e, refused⟩ := ParseState.exists_readLines_eq_error fit { cls := { path := path } } 1
    cases parsed.symm.trans refused

/-! ### Where methods come from -/

/-- The reader comes to the open method: it was declared, and the lines that were added since stand in the file under
the numbers that they were added with. -/
inductive Opened (path : String) (lines : List (List Char)) : OpenMethod → Prop
  | declared {line : Nat} {words : List (List Char)} {m : Method} (read : parseMethod line words = .ok m) :
      Opened path lines { method := m }
  | line {o : OpenMethod} {raw : List Char} {n : Nat} (before : Opened path lines o)
      (stands : (raw, n) ∈ lines.zipIdx 1) : Opened path lines (o.addLine path n raw)

/-- The methods read so far were opened and finished, and the one that is being read was opened. -/
structure ParseState.Accounted (path : String) (lines : List (List Char)) (s : ParseState) : Prop where
  isPath : s.cls.path = path
  methods : ∀ m ∈ s.cls.methods, ∃ o, Opened path lines o ∧ m = o.finish
  current : ∀ o ∈ s.current, Opened path lines o

namespace ParseState.Accounted

variable {path : String} {lines : List (List Char)} {s s' : ParseState}

theorem step (accounted : s.Accounted path lines) {line : Nat} {raw : List Char} (stands : (raw, line) ∈ lines.zipIdx 1)
    (ran : s.step line raw = .ok s') : s'.Accounted path lines := by
  obtain ⟨samePath, ⟨methods, current⟩ | ⟨o, isOpen, methods, current⟩ | ⟨o, isOpen, methods, current⟩ |
    ⟨-, methods, words, m, read, current⟩⟩ := step_cases ran
  · exact ⟨samePath.trans accounted.isPath, methods ▸ accounted.methods, current ▸ accounted.current⟩
  · refine ⟨samePath.trans accounted.isPath, fun m inside => ?_, by simp [current]⟩
    rw [methods] at inside
    rcases Array.mem_push.mp inside with before | rfl
    · exact accounted.methods m before
    · exact ⟨o, accounted.current o isOpen, rfl⟩
  · refine ⟨samePath.trans accounted.isPath, methods ▸ accounted.methods, fun o' isOpen' => ?_⟩
    cases current.symm.trans isOpen'
    rw [accounted.isPath]
    exact .line (accounted.current o isOpen) stands
  · refine ⟨samePath.trans accounted.isPath, methods ▸ accounted.methods, fun o' isOpen' => ?_⟩
    cases current.symm.trans isOpen'
    exact .declared read

theorem run {rest : List (List Char)} {line : Nat} (accounted : s.Accounted path lines)
    (stand : ∀ entry ∈ rest.zipIdx line, entry ∈ lines.zipIdx 1) (ran : s.run line rest = .ok s') :
    s'.Accounted path lines := by
  induction rest generalizing s line with
  | nil =>
    cases ran
    exact accounted
  | cons raw rest ih =>
    rw [List.zipIdx_cons] at stand
    obtain ⟨next, first, ran⟩ := run_cons_eq_ok.mp ran
    exact ih (accounted.step (stand _ List.mem_cons_self) first)
      (fun entry later => stand entry (List.mem_cons_of_mem _ later)) ran

end ParseState.Accounted

/-- The methods of a class that is read from a file were opened, finished and given their owner. -/
theorem exists_opened_of_parse {path text : String} {c : ClassDecl} (parsed : parse path text = .ok c) :
    ∀ m ∈ c.methods, ∃ o, Opened path (Text.lines text.toList) o ∧ m = { o.finish with owner := c.name } := by
  obtain ⟨s, ran, -, -, rfl⟩ := exists_run_of_parse parsed
  have start : ParseState.Accounted path (Text.lines text.toList) { cls := { path := path } } :=
    ⟨rfl, fun _ inside => by simp at inside, by simp⟩
  have accounted := start.run (fun _ => id) ran
  intro m inside
  obtain ⟨m', inside', rfl⟩ := Array.mem_map.mp inside
  obtain ⟨o, opened, rfl⟩ := accounted.methods m' inside'
  exact ⟨o, opened, rfl⟩

/-- Reading a class file keeps the property of methods. -/
structure Keeps (P : Method → Prop) : Prop where
  declared : ∀ line words m, parseMethod line words = .ok m → P m
  line : ∀ (o : OpenMethod) path line raw, P o.method → P (o.addLine path line raw).method
  finish : ∀ o : OpenMethod, P o.method → P o.finish
  own : ∀ (m : Method) owner, P m → P { m with owner := owner }

namespace Keeps

variable {P : Method → Prop} (keeps : Keeps P)
include keeps

theorem of_opened {path : String} {lines : List (List Char)} {o : OpenMethod} (opened : Opened path lines o) :
    P o.method := by
  induction opened with
  | declared read => exact keeps.declared _ _ _ read
  | line _ _ ih => exact keeps.line _ _ _ _ ih

/-- The property holds of the methods of every class that is read from a file. -/
theorem of_parse {path text : String} {c : ClassDecl} (parsed : parse path text = .ok c) : ∀ m ∈ c.methods, P m := by
  intro m inside
  obtain ⟨o, opened, rfl⟩ := exists_opened_of_parse parsed m inside
  exact keeps.own _ _ (keeps.finish o (keeps.of_opened opened))

end Keeps

end SmaliTrace.ClassFile
