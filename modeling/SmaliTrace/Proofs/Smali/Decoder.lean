import SmaliTrace.Proofs.Smali.Register
import SmaliTrace.Proofs.Text.Cut
import SmaliTrace.Smali.Decoder

/-!
Decoding a line that loads a literal. The scans for comments and for operands go by whether they are inside quotes;
what they pass over on the way belongs to the line and to one operand, so that a literal in which nothing separates
outside of quotes comes out as it was written.
-/
namespace SmaliTrace.Smali
open SmaliTrace.Text (Solid)

/-- Outside quotes the character starts a comment. -/
def startsComment (c : Char) : Bool := c = '#'

/-- Outside quotes the character ends an operand or counts as a brace. -/
def separates (c : Char) : Bool := c = ',' || c = '\x7b' || c = '\x7d'

namespace QuoteState

variable {q : QuoteState} {stop : Char → Bool} {s t : List Char}

/-- The state after a text. -/
def run (q : QuoteState) (s : List Char) : QuoteState := s.foldl step q

/-- Nothing in the text stops a scan: the characters that could are inside quotes. -/
def Passes (stop : Char → Bool) (q : QuoteState) : List Char → Prop
  | [] => True
  | c :: rest => (q.plain = true → stop c = false) ∧ (q.step c).Passes stop rest

theorem run_append : q.run (s ++ t) = (q.run s).run t := List.foldl_append

theorem Passes.append {q' : QuoteState} (passes : q.Passes stop s) (after : q.run s = q') (passes' : q'.Passes stop t) :
    q.Passes stop (s ++ t) := by
  subst after
  induction s generalizing q with
  | nil => exact passes'
  | cons c s ih => exact ⟨passes.1, ih passes.2 passes'⟩

/-- Outside quotes, a text without quotes leaves them closed. -/
theorem run_of_calm (calm : ∀ c ∈ s, c ≠ '"') : run {} s = {} := by
  induction s with
  | nil => rfl
  | cons c s ih =>
    rw [List.forall_mem_cons] at calm
    have step : step {} c = {} := by simp [step, calm.1]
    rw [run, List.foldl_cons, step]
    exact ih calm.2

theorem passes_of_calm (calm : ∀ c ∈ s, c ≠ '"' ∧ stop c = false) : Passes stop {} s := by
  induction s with
  | nil => trivial
  | cons c s ih =>
    rw [List.forall_mem_cons] at calm
    refine ⟨fun _ => calm.1.2, ?_⟩
    rw [show step {} c = {} by simp [step, calm.1.1]]
    exact ih calm.2

end QuoteState

variable {q : QuoteState} {depth : Int} {operand s rest : List Char}

/-- The search for a comment goes on behind a text that it passes. -/
theorem stripCommentFrom_append (passes : q.Passes startsComment s) :
    stripCommentFrom q (s ++ rest) = s ++ stripCommentFrom (q.run s) rest := by
  induction s generalizing q with
  | nil => rfl
  | cons c s ih =>
    have goesOn : ¬ (q.plain && decide (c = '#')) = true := by
      intro stops
      obtain ⟨plain, isSign⟩ := Bool.and_eq_true_iff.mp stops
      have passed := passes.1 plain
      rw [of_decide_eq_true isSign] at passed
      cases passed
    rw [List.cons_append, stripCommentFrom, if_neg goesOn, ih passes.2]
    rfl

/-- The search for commas goes on behind a text that it passes, in the same operand. -/
theorem splitOperandsFrom_append (passes : q.Passes separates s) :
    splitOperandsFrom q depth operand (s ++ rest) =
      splitOperandsFrom (q.run s) depth (s.reverse ++ operand) rest := by
  induction s generalizing q operand with
  | nil => rfl
  | cons c s ih =>
    have whole {d : Char} (sep : separates d = true) : ¬ (q.plain = true ∧ c = d) := by
      rintro ⟨plain, rfl⟩
      rw [passes.1 plain] at sep
      cases sep
    have comma : ¬ (q.plain && decide (depth = 0) && decide (c = ',')) = true := by
      intro splits
      simp only [Bool.and_eq_true, decide_eq_true_eq] at splits
      exact whole rfl ⟨splits.1.1, splits.2⟩
    have opening : ¬ (q.plain && decide (c = '\x7b')) = true := by simpa using whole (d := '\x7b') rfl
    have closing : ¬ (q.plain && decide (c = '\x7d')) = true := by simpa using whole (d := '\x7d') rfl
    rw [List.cons_append, splitOperandsFrom, if_neg comma, if_neg opening, if_neg closing]
    dsimp only
    rw [ih passes.2, List.reverse_cons, List.append_assoc]
    rfl

theorem splitOperandsFrom_comma :
    splitOperandsFrom {} 0 operand (',' :: rest) = Text.trim operand.reverse :: splitOperandsFrom {} 0 [] rest := by
  rw [splitOperandsFrom, if_pos (by decide)]

theorem stripCommentFrom_of_not_mem (free : '#' ∉ s) : stripCommentFrom q s = s := by
  induction s generalizing q with
  | nil => rfl
  | cons c s ih =>
    rw [List.mem_cons, not_or] at free
    rw [stripCommentFrom, if_neg (by simp [Ne.symm free.1]), ih free.2]

theorem splitOperandsFrom_of_not_mem (free : ',' ∉ s) :
    splitOperandsFrom q depth operand s = [Text.trim (operand.reverse ++ s)] := by
  induction s generalizing q depth operand with
  | nil => rw [splitOperandsFrom, List.append_nil]
  | cons c s ih =>
    rw [List.mem_cons, not_or] at free
    rw [splitOperandsFrom, if_neg (by simp [Ne.symm free.1])]
    dsimp only
    rw [ih free.2, List.reverse_cons, List.append_assoc]
    rfl

/-- What starts neither as a label nor as a directive is an instruction. -/
theorem decodePlain_of_cons {d : Decoder} {c : Char} (noLabel : c ≠ ':') (noDirective : c ≠ '.') :
    d.decodePlain (c :: rest) = (decodeInstruction (c :: rest)).map fun operation =>
      (⟨String.ofList (firstWord (c :: rest)), operation, String.ofList (c :: rest)⟩, d) := by
  have starts {pattern : String} (dotted : pattern.toList.head? = some '.') :
      Text.startsWith pattern (c :: rest) = false := by
    obtain ⟨tail, isPattern⟩ := List.head?_eq_some_iff.mp dotted
    rw [Text.startsWith, isPattern, List.isPrefixOf, beq_false_of_ne noDirective.symm, Bool.false_and]
  have noPayload : Decoder.opensPayload (c :: rest) = false := by
    rw [Decoder.opensPayload, starts rfl, starts rfl, starts rfl]
    rfl
  unfold Decoder.decodePlain
  dsimp only
  split
  · next isLabel => exact absurd (List.head_eq_of_cons_eq isLabel) noLabel
  · rw [starts rfl, noPayload, starts rfl, starts rfl]
    rfl

/-! ### Loading a literal -/

/-- The mnemonic loads a literal. -/
structure LoadsLiteral (op : String) : Prop where
  initial : ∃ tail, op.toList = 'c' :: tail
  word : ∀ c ∈ op.toList, c ≠ ' ' ∧ c ≠ '\t' ∧ c ≠ '"' ∧ c ≠ '#'
  kind : classify? op.toList = some .const
  notClass : op.toList ≠ "const-class".toList

/-- The line that loads a literal. -/
def literalLine (op : String) (r : Register) (literal : String) : String := op ++ " " ++ r ++ ", " ++ literal

theorem toList_literalLine (op : String) (r : Register) (literal : String) :
    (literalLine op r literal).toList = op.toList ++ ' ' :: (r.toList ++ ',' :: ' ' :: literal.toList) := by
  simp [literalLine]

section Load

variable {op literal : String} {r : Register} {raw : List Char} {d : Decoder}

/-- A register is no place to split a line at. -/
theorem calm_register (accepted : isRegister r.toList = true) :
    ∀ c ∈ r.toList, c ≠ '"' ∧ startsComment c = false ∧ separates c = false ∧ Text.isBlank c = false := by
  intro c inside
  rcases mem_of_isRegister accepted c inside with rfl | rfl | rfl | rfl | isDigit
  iterate 4 decide
  have range : 48 ≤ c.toNat ∧ c.toNat ≤ 57 := by
    simpa [Char.isDigit, UInt32.le_iff_toNat_le] using isDigit
  have apart {e : Char} (other : e.isDigit = false) : c ≠ e := by
    rintro rfl
    rw [other] at isDigit
    cases isDigit
  refine ⟨apart rfl, decide_eq_false (apart rfl), ?_, ?_⟩
  · simp [separates, apart (e := ',') rfl, apart (e := '\x7b') rfl, apart (e := '\x7d') rfl]
  · simp only [Text.isBlank, Bool.or_eq_false_iff, beq_eq_false_iff_ne, Bool.and_eq_false_iff, decide_eq_false_iff_not]
    omega

theorem solid_register (accepted : isRegister r.toList = true) : Solid r.toList := by
  refine Solid.of_forall ?_ fun c inside => (calm_register accepted c inside).2.2.2
  intro none
  rw [none] at accepted
  cases accepted

/-- The operands behind the mnemonic. -/
theorem splitOperands_of_register (accepted : isRegister r.toList = true) (solid : Solid literal.toList)
    (whole : splitOperandsFrom {} 0 [] (' ' :: literal.toList) = [literal.toList]) :
    splitOperands (r.toList ++ ',' :: ' ' :: literal.toList) = [r.toList, literal.toList] := by
  have calm : ∀ c ∈ r.toList, c ≠ '"' ∧ separates c = false := fun c inside =>
    have register := calm_register accepted c inside
    ⟨register.1, register.2.2.1⟩
  have solid' := solid_register accepted
  rw [splitOperands, splitOperandsFrom_append (QuoteState.passes_of_calm calm),
    QuoteState.run_of_calm fun c inside => (calm c inside).1, splitOperandsFrom_comma, whole, List.append_nil,
    List.reverse_reverse, Text.trim_of_solid solid']
  obtain ⟨c, tail, first, -⟩ := solid.first
  obtain ⟨c', tail', first', -⟩ := solid'.first
  rw [first, first']
  rfl

section Loads

variable (loads : LoadsLiteral op)
include loads

theorem LoadsLiteral.isWord : ∀ c ∈ op.toList, (c ≠ ' ' && c ≠ '\t') = true := by
  intro c inside
  simpa using ⟨(loads.word c inside).1, (loads.word c inside).2.1⟩

theorem firstWord_literalLine : firstWord (literalLine op r literal).toList = op.toList := by
  rw [toList_literalLine, firstWord, List.takeWhile_append_of_pos loads.isWord, List.takeWhile_cons_of_neg (by decide),
    List.append_nil]

theorem afterFirstWord_literalLine (accepted : isRegister r.toList = true) (solid : Solid literal.toList) :
    afterFirstWord (literalLine op r literal).toList = r.toList ++ ',' :: ' ' :: literal.toList := by
  have solid' : Solid (r.toList ++ ',' :: ' ' :: literal.toList) := by
    simpa using (solid_register accepted).append solid [',', ' ']
  rw [toList_literalLine, afterFirstWord, List.dropWhile_append_of_pos loads.isWord,
    List.dropWhile_cons_of_neg (by decide), Text.trim_cons_of_solid (by decide) solid']

theorem decodeInstruction_literalLine (accepted : isRegister r.toList = true) (solid : Solid literal.toList)
    (whole : splitOperandsFrom {} 0 [] (' ' :: literal.toList) = [literal.toList]) :
    decodeInstruction (literalLine op r literal).toList = .ok (.constLiteral r literal) := by
  have operands : splitOperands (afterFirstWord (literalLine op r literal).toList) = [r.toList, literal.toList] := by
    rw [afterFirstWord_literalLine loads accepted solid, splitOperands_of_register accepted solid whole]
  have read (text : List Char) :
      decodeOperands text op.toList .const [r.toList, literal.toList] = .ok (.constLiteral r literal) := by
    simp only [decodeOperands, if_neg loads.notClass, String.ofList_toList]
  have registers : ([r].find? fun r => !isRegister r.toList) = none := by simp [accepted]
  unfold decodeInstruction
  rw [firstWord_literalLine loads]
  simp only [loads.kind, operands, read, bind, Except.bind, Operation.registers, registers]

/-- A literal that is one operand is decoded as it was written. -/
theorem decode_literalLine (outside : d.payload = none ∧ d.annotations = 0) (accepted : isRegister r.toList = true)
    (solid : Solid literal.toList) (whole : splitOperandsFrom {} 0 [] (' ' :: literal.toList) = [literal.toList])
    (stripped : Text.trim (stripComment raw) = (literalLine op r literal).toList) :
    d.decode raw = .ok (⟨op, .constLiteral r literal, literalLine op r literal⟩, d) := by
  have starts : ∃ rest, (literalLine op r literal).toList = 'c' :: rest := by
    obtain ⟨tail, initial⟩ := loads.initial
    exact ⟨_, by rw [toList_literalLine, initial, List.cons_append]⟩
  obtain ⟨rest, starts⟩ := starts
  unfold Decoder.decode
  rw [stripped]
  dsimp only
  rw [if_neg (by simp [starts]), if_neg (by omega), outside.1]
  dsimp only
  rw [starts, decodePlain_of_cons (by decide) (by decide), ← starts, firstWord_literalLine loads,
    decodeInstruction_literalLine loads accepted solid whole, String.ofList_toList, String.ofList_toList]
  rfl

end Loads

/-- What may stand behind an instruction: blanks, and a comment or none. -/
inductive Trailing : List Char → Prop
  | blanks {blanks : List Char} (areBlank : ∀ c ∈ blanks, Text.isBlank c = true) : Trailing blanks
  | comment {blanks : List Char} (areBlank : ∀ c ∈ blanks, Text.isBlank c = true) (comment : List Char) :
      Trailing (blanks ++ '#' :: comment)

theorem calm_blank {c : Char} (blank : Text.isBlank c = true) : c ≠ '"' ∧ startsComment c = false := by
  constructor
  · rintro rfl
    cases blank
  · refine decide_eq_false ?_
    rintro rfl
    cases blank

/-- The search for a comment ends in the text, or it passes the text. -/
theorem stripCommentFrom_cases (q : QuoteState) (s : List Char) :
    (∀ rest, stripCommentFrom q (s ++ rest) = stripCommentFrom q s) ∨
      q.Passes startsComment s ∧ stripCommentFrom q s = s := by
  induction s generalizing q with
  | nil => exact .inr ⟨trivial, rfl⟩
  | cons c s ih =>
    by_cases stops : (q.plain && decide (c = '#')) = true
    · left
      intro rest
      rw [List.cons_append, stripCommentFrom, stripCommentFrom, if_pos stops, if_pos stops]
    · have passed : q.plain = true → startsComment c = false := by
        intro plain
        simpa [plain, startsComment] using stops
      simp only [List.cons_append, stripCommentFrom, if_neg stops]
      rcases ih (q.step c) with ends | ⟨passes, whole⟩
      · exact .inl fun rest => by rw [ends rest]
      · exact .inr ⟨⟨passed, passes⟩, by rw [whole]⟩

/-- What stands behind a line that closes its quotes is nothing to the decoder. -/
theorem trim_stripComment_append {raw tail : List Char} (some : Text.trim raw ≠ [])
    (closed : QuoteState.run {} (stripComment raw) = {}) (trailing : Trailing tail) :
    Text.trim (stripComment (raw ++ tail)) = Text.trim (stripComment raw) := by
  rcases stripCommentFrom_cases {} raw with ends | ⟨passes, whole⟩
  · rw [stripComment, ends tail, stripComment]
  · rw [stripComment, whole] at closed
    have passed {blanks : List Char} (areBlank : ∀ c ∈ blanks, Text.isBlank c = true) :=
      QuoteState.passes_of_calm fun c inside => calm_blank (areBlank c inside)
    have still {blanks : List Char} (areBlank : ∀ c ∈ blanks, Text.isBlank c = true) :=
      QuoteState.run_of_calm fun c inside => (calm_blank (areBlank c inside)).1
    rw [stripComment, stripComment, stripCommentFrom_append passes, closed, whole]
    cases trailing with
    | @blanks blanks areBlank =>
      rw [← List.append_nil tail, stripCommentFrom_append (passed areBlank), stripCommentFrom, List.append_nil,
        Text.trim_append_blanks some areBlank]
    | @comment blanks areBlank comment =>
      rw [stripCommentFrom_append (passed areBlank), still areBlank, stripCommentFrom, if_pos (by decide),
        List.append_nil, Text.trim_append_blanks some areBlank]

/-- The comment and the blanks around an instruction are taken away if it closes its quotes. -/
theorem trim_stripComment {indent tail text : List Char} (solid : Solid text) (passes : QuoteState.Passes startsComment {} text)
    (closed : QuoteState.run {} text = {}) (blank : ∀ c ∈ indent, Text.isBlank c = true) (trailing : Trailing tail) :
    Text.trim (stripComment (indent ++ text ++ tail)) = text := by
  have indented := QuoteState.run_of_calm fun c inside => (calm_blank (blank c inside)).1
  have passed : QuoteState.Passes startsComment {} (indent ++ text) :=
    (QuoteState.passes_of_calm fun c inside => calm_blank (blank c inside)).append indented passes
  have whole : stripComment (indent ++ text) = indent ++ text := by
    rw [stripComment, ← List.append_nil (indent ++ text), stripCommentFrom_append passed, stripCommentFrom]
  have trimmed : Text.trim (indent ++ text) = text := by
    have trimmed : Text.trim (indent ++ text ++ []) = text := Text.trim_append solid blank (by simp)
    simpa using trimmed
  obtain ⟨c, rest, first, -⟩ := solid.first
  have some : Text.trim (indent ++ text) ≠ [] := by
    rw [trimmed, first]
    exact List.cons_ne_nil c rest
  have closed : QuoteState.run {} (stripComment (indent ++ text)) = {} := by
    rw [whole, QuoteState.run_append, indented, closed]
  rw [trim_stripComment_append some closed trailing, whole, trimmed]

/-- The decoder takes a line as it is without its comment. -/
theorem decode_congr {raw' : List Char} (same : Text.trim (stripComment raw') = Text.trim (stripComment raw)) :
    d.decode raw' = d.decode raw := by
  unfold Decoder.decode
  rw [same]

theorem solid_literalLine (loads : LoadsLiteral op) (solid : Solid literal.toList) :
    Solid (literalLine op r literal).toList := by
  obtain ⟨tail, initial⟩ := loads.initial
  obtain ⟨front, c, last, notBlank⟩ := solid.last
  refine ⟨⟨'c', _, by rw [toList_literalLine, initial]; rfl, by decide⟩,
    ⟨op.toList ++ ' ' :: (r.toList ++ ',' :: ' ' :: front), c, ?_, notBlank⟩⟩
  rw [toList_literalLine, last]
  simp

/-- Up to its literal a line has no quotes and no comment. -/
theorem run_literalLine (literal : String) (loads : LoadsLiteral op) (accepted : isRegister r.toList = true) :
    QuoteState.run {} (literalLine op r literal).toList = QuoteState.run {} literal.toList ∧
      (QuoteState.Passes startsComment {} literal.toList →
        QuoteState.Passes startsComment {} (literalLine op r literal).toList) := by
  have calm : ∀ c ∈ (op ++ " " ++ r ++ ", ").toList, c ≠ '"' ∧ startsComment c = false := by
    intro c inside
    have apart (isOp : c ∈ op.toList) : c ≠ '"' ∧ startsComment c = false :=
      have word := loads.word c isOp
      ⟨word.2.2.1, decide_eq_false word.2.2.2⟩
    have register (isRegister : c ∈ r.toList) : c ≠ '"' ∧ startsComment c = false :=
      have register := calm_register accepted c isRegister
      ⟨register.1, register.2.1⟩
    simp only [String.toList_append, List.mem_append] at inside
    rcases inside with ((isOp | isBlank) | isRegister) | isComma
    · exact apart isOp
    · rw [List.mem_singleton.mp isBlank]
      decide
    · exact register isRegister
    · have comma : ∀ c ∈ ", ".toList, c ≠ '"' ∧ startsComment c = false := by simp [startsComment]
      exact comma c isComma
  have same := QuoteState.run_of_calm fun c inside => (calm c inside).1
  rw [literalLine, String.toList_append]
  exact ⟨by rw [QuoteState.run_append, same], (QuoteState.passes_of_calm calm).append same⟩

/-- A line that loads a literal starts with its mnemonic. -/
theorem exists_trim_literalLine {indent : List Char} (loads : LoadsLiteral op) (r : Register) (literal : String)
    (tail : List Char) (blank : ∀ c ∈ indent, Text.isBlank c = true) :
    ∃ rest, Text.trim (indent ++ (literalLine op r literal).toList ++ tail) = 'c' :: rest := by
  obtain ⟨rest, initial⟩ := loads.initial
  simpa [literalLine, initial] using Text.exists_trim_eq_cons blank (c := 'c') (by decide)

end Load

end SmaliTrace.Smali
