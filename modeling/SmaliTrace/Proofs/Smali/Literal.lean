import SmaliTrace.Proofs.Smali.Decoder
import SmaliTrace.Proofs.Text.Quoted
import SmaliTrace.Smali.Literal

/-!
Literals on their way from a line to their value. The scans for comments and operands and the reading of a literal agree
where a text in double quotes ends, so every such literal is decoded as it was written. They do not agree about single
quotes, between which a number sign and a comma still separate.
-/
namespace SmaliTrace.Smali
open SmaliTrace.Text (Octets Solid Spelling)

namespace QuoteState

variable {stop : Char → Bool} {s rest : List Char} {unit : Text.QuotedUnit}

/-- The state inside quotes. -/
def inside : QuoteState := ⟨true, false⟩

/-- Inside quotes nothing separates. -/
theorem passes_inside_cons {c : Char} (passes : (inside.step c).Passes stop s) : inside.Passes stop (c :: s) :=
  ⟨fun plain => (by cases plain), passes⟩

/-- Inside quotes, a text without quotes and backslashes stays inside. -/
theorem run_inside (free : ∀ c ∈ s, c ≠ '"' ∧ c ≠ '\\') : inside.run s = inside := by
  induction s with
  | nil => rfl
  | cons c s ih =>
    rw [List.forall_mem_cons] at free
    have step : inside.step c = inside := by simp [QuoteState.step, inside, free.1.1, free.1.2]
    rw [run, List.foldl_cons, step]
    exact ih free.2

theorem passes_inside (free : ∀ c ∈ s, c ≠ '"' ∧ c ≠ '\\') : inside.Passes stop s := by
  induction s with
  | nil => trivial
  | cons c s ih =>
    rw [List.forall_mem_cons] at free
    have step : inside.step c = inside := by simp [QuoteState.step, inside, free.1.1, free.1.2]
    exact passes_inside_cons (by rw [step]; exact ih free.2)

/-- A backslash and what it escapes stay inside quotes. -/
theorem run_escape (e : Char) (free : ∀ c ∈ s, c ≠ '"' ∧ c ≠ '\\') :
    inside.run ('\\' :: e :: s) = inside ∧ inside.Passes stop ('\\' :: e :: s) :=
  have stays : inside.run s = inside := run_inside free
  ⟨stays, passes_inside_cons ⟨fun plain => (by cases plain), passes_inside free⟩⟩

theorem run_spelling (spelled : Spelling '"' s unit) : inside.run s = inside ∧ inside.Passes stop s := by
  have digits {digit? : Char → Option Nat} {base n : Nat} {digits : List Char}
      (value : Text.digitsValue? digit? base digits = some n) (quote : digit? '"' = none) (backslash : digit? '\\' = none) :
      ∀ c ∈ digits, c ≠ '"' ∧ c ≠ '\\' := by
    intro c isDigit
    have digit := Text.isSome_of_digitsValue? value c isDigit
    constructor
    · rintro rfl
      rw [quote] at digit
      cases digit
    · rintro rfl
      rw [backslash] at digit
      cases digit
  cases spelled with
  | @plain c notMark notBackslash =>
    have free : ∀ d ∈ [c], d ≠ '"' ∧ d ≠ '\\' := by simpa using ⟨notMark, notBackslash⟩
    exact ⟨run_inside free, passes_inside free⟩
  | letter | quote => exact run_escape _ (by simp)
  | hex _ value | short _ value | long _ value => exact run_escape _ (digits value (by decide) (by decide))
  | octal width value =>
    obtain ⟨d, rest, rfl⟩ := List.exists_cons_of_length_eq_add_one width
    exact run_escape d (List.forall_mem_cons.mp (digits value (by decide) (by decide))).2

/-- The scans leave the quotes where the reading of the literal ends. -/
theorem run_of_readInside? {units : List Text.QuotedUnit} (read : Text.readInside? s = some units) :
    inside.run s = {} ∧ inside.Passes stop s := by
  fun_induction Text.readInside? s generalizing units with
  | case1 | case3 | case4 | case5 => cases read
  | case2 rest isEnd =>
    rw [List.isEmpty_iff.mp isEnd]
    exact ⟨rfl, passes_inside_cons trivial⟩
  | case6 s _ _ _ unit rest found _ ih =>
    obtain ⟨units, read, -⟩ := Option.map_eq_some_iff.mp read
    obtain ⟨spelling, rfl, spelled⟩ := (Text.readUnit?_eq_some_iff (.inl rfl)).mp found
    obtain ⟨stays, passes⟩ := run_spelling spelled
    obtain ⟨leaves, passes'⟩ := ih read
    exact ⟨by rw [run_append, stays, leaves], passes.append stays passes'⟩

end QuoteState

variable {literal : String} {v : Octets}

theorem loadsLiteral_constString : LoadsLiteral "const-string" :=
  ⟨⟨_, String.toList_ofList⟩, by simp, by decide +kernel, by decide⟩

theorem loadsLiteral_const16 : LoadsLiteral "const/16" :=
  ⟨⟨_, String.toList_ofList⟩, by simp, by decide +kernel, by decide⟩

/-! ### Double quotes -/

/-- The text is a literal in double quotes. -/
structure Quoted (literal : String) (v : Octets) : Prop where
  first : ∃ inside, literal.toList = '"' :: inside
  value : Text.unquoteText? literal.toList = some v

theorem quoted_quote (v : Octets) : Quoted v.quote v :=
  ⟨⟨_, by rw [Octets.quote, Text.quotePieces, String.toList_ofList, List.cons_append]⟩, Text.unquoteText?_quote v⟩

namespace Quoted

variable (quoted : Quoted literal v)
include quoted

theorem exists_readInside? : ∃ inside units, literal.toList = '"' :: inside ∧ Text.readInside? inside = some units := by
  obtain ⟨inside, isText⟩ := quoted.first
  have value := quoted.value
  rw [isText] at value
  obtain ⟨units, read, -⟩ := Option.map_eq_some_iff.mp value
  exact ⟨inside, units, isText, read⟩

theorem solid : Solid literal.toList := by
  obtain ⟨inside, units, isText, read⟩ := quoted.exists_readInside?
  obtain ⟨front, rfl⟩ := Text.exists_append_of_readInside? read
  exact ⟨⟨_, _, isText, by decide⟩, ⟨'"' :: front, '"', isText, by decide⟩⟩

theorem passes {stop : Char → Bool} (opens : stop '"' = false) :
    QuoteState.run {} literal.toList = {} ∧ QuoteState.Passes stop {} literal.toList := by
  obtain ⟨inside, units, isText, read⟩ := quoted.exists_readInside?
  obtain ⟨leaves, passes⟩ := QuoteState.run_of_readInside? read
  rw [isText]
  exact ⟨leaves, fun _ => opens, passes⟩

theorem value_eq : Literal.value literal = .ok v := by
  obtain ⟨inside, isText⟩ := quoted.first
  have value := quoted.value
  unfold Literal.value
  rw [isText] at value ⊢
  dsimp only
  rw [if_pos (by decide), Literal.unquote, show Literal.singleQuoted? ('"' :: inside) = none from rfl, value]

theorem splitOperandsFrom_eq : splitOperandsFrom {} 0 [] (' ' :: literal.toList) = [literal.toList] := by
  have blank : ∀ c ∈ [' '], c ≠ '"' ∧ separates c = false := by simp [separates]
  have passes : QuoteState.Passes separates {} (' ' :: literal.toList) :=
    (QuoteState.passes_of_calm blank).append rfl (quoted.passes rfl).2
  rw [← List.append_nil (' ' :: literal.toList), splitOperandsFrom_append passes, splitOperandsFrom, List.append_nil,
    List.reverse_reverse, Text.trim_cons_of_solid (by decide) quoted.solid]

/-- A literal in double quotes is decoded as it was written, whatever stands behind it. -/
theorem decode_eq {d : Decoder} {op : String} {r : Register} {indent tail : List Char}
    (outside : d.payload = none ∧ d.annotations = 0) (loads : LoadsLiteral op)
    (accepted : isRegister r.toList = true) (blank : ∀ c ∈ indent, Text.isBlank c = true) (trailing : Trailing tail) :
    d.decode (indent ++ (literalLine op r literal).toList ++ tail) =
      .ok (⟨op, .constLiteral r literal, literalLine op r literal⟩, d) := by
  have startsQuote : startsComment '"' = false := rfl
  obtain ⟨closed, passes⟩ := quoted.passes startsQuote
  obtain ⟨same, passes'⟩ := run_literalLine literal loads accepted
  refine decode_literalLine loads outside accepted quoted.solid quoted.splitOperandsFrom_eq ?_
  exact trim_stripComment (solid_literalLine loads quoted.solid) (passes' passes) (same.trans closed) blank trailing

end Quoted

/-! ### Single quotes -/

/-- The character in single quotes. -/
def charLiteral (c : Char) : String := String.ofList ['\x27', c, '\x27']

theorem toList_charLiteral (c : Char) : (charLiteral c).toList = ['\x27', c, '\x27'] := String.toList_ofList

theorem singleQuoted?_eq_some_iff {s body : List Char} :
    Literal.singleQuoted? s = some body ↔ s = '\x27' :: body ++ ['\x27'] := by
  constructor
  · intro found
    unfold Literal.singleQuoted? at found
    split at found
    · next rest =>
      split at found
      · next ends =>
        obtain ⟨front, rfl⟩ := List.isSuffixOf_iff_suffix.mp ends
        obtain rfl : front = body := by simpa using found
        rfl
      · cases found
    · cases found
  · rintro rfl
    have ends : Text.endsWith "\x27" (body ++ ['\x27']) = true := List.isSuffixOf_iff_suffix.mpr (List.suffix_append ..)
    rw [List.cons_append, Literal.singleQuoted?, if_pos ends, List.dropLast_concat]

/-- A text in single quotes is a literal if it starts with the spelling of a character; what follows that up to the
closing quote is not looked at. -/
theorem unquote_eq_ok_iff {s : List Char} (single : s.head? = some '\x27') :
    Literal.unquote s = .ok v ↔ ∃ spelling rest unit, s = '\x27' :: (spelling ++ rest) ++ ['\x27'] ∧
      Spelling '\x27' spelling unit ∧ v = Octets.ofString (String.singleton unit.char) := by
  unfold Literal.unquote
  constructor
  · intro read
    split at read
    · next body closed =>
      split at read
      · next unit rest found =>
        cases read
        obtain ⟨spelling, rfl, spelled⟩ := (Text.readUnit?_eq_some_iff (.inr rfl)).mp found
        exact ⟨spelling, rest, unit, singleQuoted?_eq_some_iff.mp closed, spelled, rfl⟩
      · cases read
    · obtain ⟨tail, rfl⟩ := List.head?_eq_some_iff.mp single
      cases read
  · rintro ⟨spelling, rest, unit, closed, spelled, rfl⟩
    rw [singleQuoted?_eq_some_iff.mpr closed]
    dsimp only
    rw [(Text.readUnit?_eq_some_iff (.inr rfl)).mpr ⟨spelling, rfl, spelled⟩]

variable {c : Char}

theorem value_charLiteral (notQuote : c ≠ '\x27') (notBackslash : c ≠ '\\') :
    Literal.value (charLiteral c) = .ok (Octets.ofString (String.singleton c)) := by
  unfold Literal.value
  rw [toList_charLiteral]
  dsimp only
  rw [if_pos (by decide)]
  exact (unquote_eq_ok_iff rfl).mpr ⟨[c], [], .point c, rfl, .plain notQuote notBackslash, rfl⟩

/-- A character that neither starts a comment nor ends an operand is decoded as it was written. -/
theorem decode_charLiteral {d : Decoder} (outside : d.payload = none ∧ d.annotations = 0) (noComment : c ≠ '#')
    (noComma : c ≠ ',') : d.decode (literalLine "const/16" "v0" (charLiteral c)).toList =
      .ok (⟨"const/16", .constLiteral "v0" (charLiteral c), literalLine "const/16" "v0" (charLiteral c)⟩, d) := by
  have solid : Solid (charLiteral c).toList := by
    rw [toList_charLiteral]
    exact ⟨⟨_, _, rfl, by decide⟩, ⟨['\x27', c], _, rfl, by decide⟩⟩
  have accepted : isRegister "v0".toList = true := by decide +kernel
  refine decode_literalLine loadsLiteral_const16 outside accepted solid ?_ ?_
  · have free : ',' ∉ ' ' :: (charLiteral c).toList := by simp [toList_charLiteral, noComma.symm]
    rw [splitOperandsFrom_of_not_mem free, List.reverse_nil, List.nil_append, Text.trim_cons_of_solid (by decide) solid]
  · have free : '#' ∉ (literalLine "const/16" "v0" (charLiteral c)).toList := by
      simp [literalLine, toList_charLiteral, noComment.symm]
    rw [stripComment, stripCommentFrom_of_not_mem free, Text.trim_of_solid (solid_literalLine loadsLiteral_const16 solid)]

/-- What becomes of the two characters that are not decoded as they were written: the literal is cut at the comment, or
there is one operand too many. -/
theorem operation_charLiteral {d : Decoder} (outside : d.payload = none ∧ d.annotations = 0) :
    ((d.decode (literalLine "const/16" "v0" (charLiteral '#')).toList).toOption.map fun (i, _) => i.operation) =
        some (.constLiteral "v0" "\x27") ∧
      (d.decode (literalLine "const/16" "v0" (charLiteral ',')).toList).toOption = none := by
  obtain ⟨payload, annotations⟩ := d
  obtain ⟨rfl, rfl⟩ : payload = none ∧ annotations = 0 := outside
  simp only [literalLine, String.toList_append, toList_charLiteral]
  repeat rw [String.toList_ofList]
  decide +kernel

/-- Characters in single quotes. Each has its value, and it comes out of a line as it was written unless it starts a
comment or ends an operand; and a text in single quotes has a value if it starts with the spelling of a character. -/
theorem character_literals {d : Decoder} (outside : d.payload = none ∧ d.annotations = 0) :
    (∀ c : Char, c ≠ '\x27' → c ≠ '\\' →
      Literal.value (charLiteral c) = .ok (Octets.ofString (String.singleton c)) ∧
      (d.decode (literalLine "const/16" "v0" (charLiteral c)).toList =
        .ok (⟨"const/16", .constLiteral "v0" (charLiteral c), literalLine "const/16" "v0" (charLiteral c)⟩, d) ↔
          c ≠ '#' ∧ c ≠ ',')) ∧
    ∀ (s : List Char) (v : Octets), s.head? = some '\x27' → (Literal.unquote s = .ok v ↔
      ∃ spelling rest unit, s = '\x27' :: (spelling ++ rest) ++ ['\x27'] ∧ Spelling '\x27' spelling unit ∧
        v = Octets.ofString (String.singleton unit.char)) := by
  refine ⟨fun c notQuote notBackslash => ⟨value_charLiteral notQuote notBackslash, fun decoded => ?_,
    fun plain => decode_charLiteral outside plain.1 plain.2⟩, fun s v => unquote_eq_ok_iff⟩
  obtain ⟨comment, comma⟩ := operation_charLiteral outside
  constructor
  · rintro rfl
    rw [decoded] at comment
    have cut : Operation.constLiteral "v0" (charLiteral '#') = .constLiteral "v0" "\x27" := Option.some.inj comment
    exact absurd cut (by decide +kernel)
  · rintro rfl
    rw [decoded] at comma
    cases comma

theorem character_literals_a : Literal.value (charLiteral 'a') = .ok (Octets.ofString "a") ∧
    Decoder.decode {} (literalLine "const/16" "v0" (charLiteral 'a')).toList =
      .ok (⟨"const/16", .constLiteral "v0" (charLiteral 'a'), literalLine "const/16" "v0" (charLiteral 'a')⟩, {}) ∧
    Literal.unquote ['\x27', '\\', 'n', '\x27'] = .ok (Octets.ofString "\n") := by
  have outside : ({} : Decoder).payload = none ∧ ({} : Decoder).annotations = 0 := ⟨rfl, rfl⟩
  obtain ⟨characters, texts⟩ := character_literals outside
  obtain ⟨value, decoded⟩ := characters 'a' (by decide) (by decide)
  exact ⟨value, decoded.mpr (by decide),
    (texts _ _ rfl).mpr ⟨['\\', 'n'], [], .point '\n', rfl, .letter rfl, rfl⟩⟩

/-- A number sign and a comma in single quotes are taken for the start of a comment and for the end of an operand, and
two characters for one. -/
theorem character_literals_mistaken :
    ((Decoder.decode {} "const/16 v0, '#'".toList).toOption.map fun (i, _) => i.operation) =
        some (.constLiteral "v0" "'") ∧
      (Decoder.decode {} "const/16 v0, ','".toList).toOption = none ∧
      Literal.unquote "'ab'".toList = .ok (Octets.ofString "a") ∧ ¬ ∃ unit, Spelling '\x27' ['a', 'b'] unit := by
  refine and_assoc.mp ⟨?_, ?_, ?_⟩
  · repeat rw [String.toList_ofList]
    decide +kernel
  · exact (unquote_eq_ok_iff rfl).mpr ⟨['a'], ['b'], .point 'a', rfl, .plain (by decide) (by decide), rfl⟩
  · rintro ⟨unit, spelled⟩
    cases spelled

end SmaliTrace.Smali
