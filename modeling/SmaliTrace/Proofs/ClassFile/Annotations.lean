import SmaliTrace.Proofs.ClassFile.Reading
import SmaliTrace.Proofs.Text.Cut

/-!
# Annotation blocks hide no code

What a class file says apart from its annotations, and which lines of a file belong to annotation
blocks in the grammar of the text. Reading a file gives the same as reading it without these lines,
as long as the readers count every line of a block the way the grammar does.
-/
namespace SmaliTrace.ClassFile
open SmaliTrace.Smali

/-! ## Content -/

def FieldDecl.unnumbered (f : FieldDecl) : FieldDecl := { f with number := 0 }

def CodeLine.unnumbered (l : CodeLine) : CodeLine := { l with number := 0 }

def BodyFault.unnumbered : BodyFault → BodyFault
  | .undecodable path _ error => .undecodable path 0 error
  | .badCount path _ text error => .badCount path 0 text error

def ParseError.unnumbered : ParseError → ParseError
  | .malformedClass _ => .malformedClass 0
  | .malformedField _ => .malformedField 0
  | .untypedField _ => .untypedField 0
  | .malformedMethod _ => .malformedMethod 0
  | .badMethod _ error => .badMethod 0 error
  | .lineTooLong => .lineTooLong
  | .unterminated method => .unterminated method
  | .missingClass => .missingClass
  | .halted fault => .halted fault.unnumbered

/-- The line says something: it is no blank line, plain directive or line of an annotation. -/
def CodeLine.speaks (l : CodeLine) : Bool := l.operation ≠ .directive

/-- The method without line numbers and plain directives. -/
def Method.content (m : Method) : Method :=
  { m with
    lines := (m.lines.filter CodeLine.speaks).map CodeLine.unnumbered
    fault := m.fault.map BodyFault.unnumbered }

/-- The class without line numbers and plain directives. -/
def ClassDecl.content (c : ClassDecl) : ClassDecl :=
  { c with fields := c.fields.map FieldDecl.unnumbered, methods := c.methods.map Method.content }

/-- What reading a file comes to, apart from line numbers and plain directives. -/
def content : Except ParseError ClassDecl → Except ParseError ClassDecl
  | .ok c => .ok c.content
  | .error e => .error e.unnumbered

/-! ## Annotation blocks -/

/-- What a line inside annotation blocks does to their nesting. -/
inductive Mark where
  | opens
  | closes
  | within
deriving DecidableEq

namespace Mark

/-- The number of open blocks after a line. -/
def after (depth : Nat) : Mark → Nat
  | opens => depth + 1
  | closes => depth - 1
  | within => depth

/-- What the line is in the grammar. A subannotation stands at the start of the line or behind
`name =`, and a comma may follow its end in an array. -/
def written (raw : List Char) : Mark :=
  let words := (Text.words (Text.trim (stripComment raw))).map String.ofList
  if words = [".end", "annotation"] || words = [".end", "subannotation"] ||
      words = [".end", "subannotation,"] || words = [".end", "subannotation", ","] then
    closes
  else if words.head? = some ".annotation" || words.head? = some ".subannotation" ||
      (words.drop 1).take 2 = ["=", ".subannotation"] then
    opens
  else within

/-- What the line is to both readers. -/
def read (text : List Char) : Mark :=
  if text = ".end annotation".toList || text = ".end subannotation".toList then closes
  else if Text.startsWith ".annotation" text || Text.startsWith ".subannotation" text then opens
  else within

end Mark

/-- The line is blank or a comment. -/
def isSkipped (raw : List Char) : Bool :=
  (Text.trim raw).isEmpty || Text.startsWith "#" (Text.trim raw)

/-- Where a line of a class file stands; in a body, with the directive of an open payload. -/
inductive Place where
  | declarations
  | body (payload : Option String)
deriving DecidableEq

/-- What a line outside annotation blocks does. -/
inductive Turn where
  | opensBlock
  | moves (next : Place)
deriving DecidableEq

namespace Place

/-- What a line of a body does, given without its comment. Inside a payload no block is opened. -/
def bodyTurn (payload : Option String) (text : List Char) : Turn :=
  match payload with
  | some directive =>
    if text = ".end ".toList ++ Text.without "." directive.toList then .moves (body none)
    else .moves (body payload)
  | none =>
    if Decoder.opensPayload text then .moves (body (some (String.ofList (firstWord text))))
    else if Text.startsWith ".annotation" text then .opensBlock
    else .moves (body none)

/-- What the line does, outside annotation blocks. -/
def turn (place : Place) (raw : List Char) : Turn :=
  if isSkipped raw then .moves place
  else
    match place with
    | declarations =>
      match Text.words (Text.trim raw) with
      | [] => .moves declarations
      | word :: _ =>
        if String.ofList word = ".annotation" then .opensBlock
        else if String.ofList word = ".method" then .moves (body none)
        else .moves declarations
    | body payload =>
      if Text.trim raw = ".end method".toList then .moves declarations
      else bodyTurn payload (Text.trim (stripComment raw))

/-- What a line inside blocks is to the reader of the place: declarations are read with their
comments. -/
def read (place : Place) (raw : List Char) : Mark :=
  if isSkipped raw then .within
  else
    match place with
    | declarations => .read (Text.trim raw)
    | body _ => .read (Text.trim (stripComment raw))

end Place

/-- Separates the lines outside annotation blocks from those inside, each of these with the place of
its block, `depth` blocks being open. The blocks have to be nested, and no method ends in one. -/
def separate? (place : Place) (depth : Nat) :
    List (List Char) → Option (List (List Char) × List (Place × List Char))
  | [] => if depth = 0 then some ([], []) else none
  | raw :: rest =>
    if depth = 0 then
      match place.turn raw with
      | .opensBlock => separate? place 1 rest
      | .moves next =>
        (separate? next 0 rest).map fun (bare, inner) => (raw :: bare, inner)
    else if Text.trim raw = ".end method".toList then none
    else
      (separate? place ((Mark.written raw).after depth) rest).map fun (bare, inner) =>
        (bare, (place, raw) :: inner)

/-! ## The readers' counts -/

theorem annotationDepth_eq (depth : Nat) (text : List Char) :
    annotationDepth depth text = (Mark.read text).after depth := by
  simp only [annotationDepth, Mark.read]
  split
  · rfl
  · split <;> rfl

theorem insideAnnotation_eq (d : Decoder) (text : List Char) :
    d.insideAnnotation text = { d with annotations := (Mark.read text).after d.annotations } := by
  simp only [Decoder.insideAnnotation, Mark.read]
  split
  · rfl
  · split <;> rfl

/-- Inside blocks the decoder gives nothing but directives, and counts. -/
theorem decode_inside (payload : Option String) (depth : Nat) (raw : List Char) :
    Decoder.decode ⟨payload, depth + 1⟩ raw =
      .ok (⟨"", .directive, String.ofList (Text.trim (stripComment raw))⟩,
        ⟨payload, (Mark.read (Text.trim (stripComment raw))).after (depth + 1)⟩) := by
  simp only [Decoder.decode]
  split
  · rename_i empty
    rw [List.isEmpty_iff] at empty
    rw [empty]
    rfl
  · rw [if_pos (Nat.succ_pos depth), insideAnnotation_eq]

theorem decodePlain_opens {text : List Char} (opens : Text.startsWith ".annotation" text)
    (payload : ¬ Decoder.opensPayload text) :
    Decoder.decodePlain {} text =
      .ok (⟨".annotation", .directive, String.ofList text⟩, ⟨none, 1⟩) := by
  obtain ⟨rest, rfl⟩ : ∃ rest, text = '.' :: 'a' :: rest := by
    obtain ⟨rest, eq⟩ := List.isPrefixOf_iff_prefix.mp opens
    exact ⟨_, eq.symm⟩
  have noCatch : ¬ Text.startsWith ".catch" ('.' :: 'a' :: rest) := by
    intro starts
    obtain ⟨_, eq⟩ := List.isPrefixOf_iff_prefix.mp starts
    simp at eq
  simp only [Decoder.decodePlain, if_neg noCatch, if_neg payload, if_pos opens]
  rfl

/-- A payload is opened by a directive whose name tells it from labels and handlers. -/
theorem exists_of_opensPayload {text : List Char} (h : Decoder.opensPayload text) :
    ∃ c rest, text = '.' :: c :: rest ∧ c ≠ 'c' := by
  simp only [Decoder.opensPayload, Text.startsWith, Bool.or_eq_true,
    List.isPrefixOf_iff_prefix] at h
  rcases h with (⟨rest, eq⟩ | ⟨rest, eq⟩) | ⟨rest, eq⟩ <;>
    exact ⟨_, _, eq.symm, by decide⟩

theorem exists_of_map_eq_ok {α β ε : Type} {x : Except ε α} {f : α → β} {b : β}
    (h : x.map f = .ok b) : ∃ a, f a = b := by
  cases x with
  | error e => cases h
  | ok a => exact ⟨a, Except.ok.inj h⟩

/-- Outside blocks and payloads, a line that opens no block leaves the decoder in the payload it
opens. -/
theorem decodePlain_moves {text : List Char} {i : Instruction} {d : Decoder}
    (decoded : Decoder.decodePlain {} text = .ok (i, d))
    (block : ¬ Decoder.opensPayload text → ¬ Text.startsWith ".annotation" text) :
    d = if Decoder.opensPayload text then ⟨some (String.ofList (firstWord text)), 0⟩ else {} := by
  by_cases payload : Decoder.opensPayload text
  · rw [if_pos payload]
    obtain ⟨c, rest, rfl, other⟩ := exists_of_opensPayload payload
    have noCatch : ¬ Text.startsWith ".catch" ('.' :: c :: rest) := by
      intro starts
      obtain ⟨_, eq⟩ := List.isPrefixOf_iff_prefix.mp starts
      simp at eq
      exact other eq.1.symm
    simp only [Decoder.decodePlain, if_neg noCatch, if_pos payload] at decoded
    cases decoded
    rfl
  · rw [if_neg payload]
    unfold Decoder.decodePlain at decoded
    simp only [if_neg payload, if_neg (block payload)] at decoded
    split at decoded
    · cases decoded
      rfl
    · split at decoded
      · obtain ⟨_, eq⟩ := exists_of_map_eq_ok decoded
        exact (Prod.mk.inj eq).2.symm
      · split at decoded <;>
        · obtain ⟨_, eq⟩ := exists_of_map_eq_ok decoded
          exact (Prod.mk.inj eq).2.symm

theorem decode_moves {payload : Option String} {raw : List Char} {i : Instruction} {d : Decoder}
    {next : Place} (decoded : Decoder.decode ⟨payload, 0⟩ raw = .ok (i, d))
    (turn : Place.bodyTurn payload (Text.trim (stripComment raw)) = .moves next) :
    ∃ payload', next = .body payload' ∧ d = ⟨payload', 0⟩ := by
  simp only [Decoder.decode, Nat.lt_irrefl, if_false] at decoded
  cases payload with
  | some directive =>
    simp only [Place.bodyTurn] at turn decoded
    by_cases blank : (Text.trim (stripComment raw)).isEmpty
    · have other : ¬ Text.trim (stripComment raw) =
          ".end ".toList ++ Text.without "." directive.toList := by
        rw [List.isEmpty_iff.mp blank]
        simp
      rw [if_pos blank] at decoded
      rw [if_neg other] at turn
      cases decoded
      exact ⟨_, (Turn.moves.inj turn).symm, rfl⟩
    · rw [if_neg blank] at decoded
      split at turn
      · rename_i closes
        rw [if_pos closes] at decoded
        cases decoded
        exact ⟨_, (Turn.moves.inj turn).symm, rfl⟩
      · rename_i other
        rw [if_neg other] at decoded
        obtain ⟨_, eq⟩ := exists_of_map_eq_ok decoded
        exact ⟨_, (Turn.moves.inj turn).symm, (Prod.mk.inj eq).2.symm⟩
  | none =>
    simp only [Place.bodyTurn] at turn decoded
    by_cases blank : (Text.trim (stripComment raw)).isEmpty
    · rw [if_pos blank] at decoded
      rw [List.isEmpty_iff.mp blank] at turn
      cases decoded
      exact ⟨_, (Turn.moves.inj turn).symm, rfl⟩
    · rw [if_neg blank] at decoded
      split at turn
      · rename_i payload
        have := decodePlain_moves decoded fun other => (other payload).elim
        rw [if_pos payload] at this
        exact ⟨_, (Turn.moves.inj turn).symm, this⟩
      · rename_i payload
        split at turn
        · cases turn
        · rename_i block
          have := decodePlain_moves decoded fun _ => block
          rw [if_neg payload] at this
          exact ⟨_, (Turn.moves.inj turn).symm, this⟩

theorem decode_opens {payload : Option String} {raw : List Char}
    (turn : Place.bodyTurn payload (Text.trim (stripComment raw)) = .opensBlock) :
    Decoder.decode ⟨payload, 0⟩ raw =
      .ok (⟨".annotation", .directive, String.ofList (Text.trim (stripComment raw))⟩,
        ⟨payload, 1⟩) := by
  cases payload with
  | some directive =>
    simp only [Place.bodyTurn] at turn
    split at turn <;> cases turn
  | none =>
    simp only [Place.bodyTurn] at turn
    split at turn
    · cases turn
    · rename_i payload
      split at turn
      · rename_i opens
        have filled : ¬ (Text.trim (stripComment raw)).isEmpty := by
          intro blank
          rw [List.isEmpty_iff.mp blank] at opens
          cases opens
        simp only [Decoder.decode, if_neg filled, Nat.lt_irrefl, if_false]
        exact decodePlain_opens opens payload
      · cases turn

/-- A line of a body other than its end stays in the body. -/
theorem bodyTurn_stays {payload : Option String} {text : List Char} {next : Place}
    (turn : Place.bodyTurn payload text = .moves next) : ∃ payload', next = .body payload' := by
  unfold Place.bodyTurn at turn
  split at turn
  · split at turn <;> exact ⟨_, (Turn.moves.inj turn).symm⟩
  · split at turn
    · exact ⟨_, (Turn.moves.inj turn).symm⟩
    · split at turn
      · cases turn
      · exact ⟨_, (Turn.moves.inj turn).symm⟩

/-! ## Reading beside the bare file -/

/-- Reading has come equally far in a method of the file, `depth` blocks being open, and of the file
without them. After a fault the decoders no longer matter. -/
structure OpenMethod.Alike (depth : Nat) (payload : Option String) (o bare : OpenMethod) :
    Prop where
  method : o.method.content = bare.method.content
  locals : o.locals = bare.locals
  decoder : o.method.fault = none → o.decoder = ⟨payload, depth⟩
  bareDecoder : bare.method.fault = none → bare.decoder = ⟨payload, 0⟩

/-- The line with its registers respelled. -/
def CodeLine.respell (f : Register → Register) (l : CodeLine) : CodeLine :=
  { l with instruction.operation := l.operation.mapRegisters f }

theorem speaks_respell (f : Register → Register) :
    CodeLine.speaks ∘ CodeLine.respell f = CodeLine.speaks := by
  funext l
  obtain ⟨_, _, operation, _⟩ := l
  cases operation <;> rfl

theorem content_respell (m : Method) :
    ({ m with lines := m.lines.map (CodeLine.respell m.canonical) } : Method).content =
      { m.content with lines := m.content.lines.map (CodeLine.respell m.content.canonical) } := by
  simp only [Method.content, Array.filter_map, speaks_respell, Array.map_map]
  rfl

theorem finish_content (o : OpenMethod) :
    o.finish.content = ({ o with method := o.method.content } : OpenMethod).finish := by
  obtain ⟨m, d, locals⟩ := o
  by_cases counted : 0 ≤ locals
  · simp only [OpenMethod.finish, if_pos counted]
    exact content_respell { m with registers := Number.wrap (locals + m.paramSlots) }
  · simp only [OpenMethod.finish, if_neg counted]
    exact content_respell m

theorem content_push (m : Method) (line : CodeLine) :
    ({ m with lines := m.lines.push line } : Method).content =
      if line.speaks then { m.content with lines := m.content.lines.push line.unnumbered }
      else m.content := by
  by_cases h : line.speaks = true <;> simp [Method.content, h]

namespace OpenMethod.Alike
variable {depth : Nat} {payload : Option String} {o bare : OpenMethod}

theorem finish (alike : o.Alike depth payload bare) : o.finish.content = bare.finish.content := by
  rw [finish_content o, finish_content bare, alike.method]
  simp only [OpenMethod.finish, alike.locals]

theorem isSome_fault (alike : o.Alike depth payload bare) :
    o.method.fault.isSome = bare.method.fault.isSome := by
  have := congrArg (fun m : Method => m.fault.isSome) alike.method
  simpa [Method.content] using this

/-- A fault found in both methods at a line. -/
theorem fail (alike : o.Alike depth payload bare) {fault fault' : BodyFault} {depth' : Nat}
    {payload' : Option String} (same : fault.unnumbered = fault'.unnumbered) :
    Alike depth' payload' { o with method.fault := some fault }
      { bare with method.fault := some fault' } where
  method := by
    have := congrArg (fun m : Method => { m with fault := some fault.unnumbered }) alike.method
    simpa [Method.content, same] using this
  locals := alike.locals
  decoder := nofun
  bareDecoder := nofun

/-- Only the decoders change. -/
theorem decoded (alike : o.Alike depth payload bare) (depth' : Nat) (payload' : Option String) :
    Alike depth' payload' { o with decoder := ⟨payload', depth'⟩ }
      { bare with decoder := ⟨payload', 0⟩ } :=
  ⟨alike.method, alike.locals, fun _ => rfl, fun _ => rfl⟩

theorem push (alike : o.Alike depth payload bare) (n n' : Nat) (i : Instruction) :
    Alike depth payload { o with method.lines := o.method.lines.push ⟨n, i⟩ }
      { bare with method.lines := bare.method.lines.push ⟨n', i⟩ } where
  method := by
    rw [content_push, content_push, alike.method]
    rfl
  locals := alike.locals
  decoder := alike.decoder
  bareDecoder := alike.bareDecoder

theorem setCount (alike : o.Alike depth payload bare) (path : String) (n n' : Nat)
    (i : Instruction) : Alike depth payload (o.setCount path n i) (bare.setCount path n' i) := by
  unfold OpenMethod.setCount
  split
  · dsimp only
    split
    · exact alike.fail rfl
    · rename_i count _
      split
      · exact ⟨alike.method, rfl, alike.decoder, alike.bareDecoder⟩
      · refine ⟨?_, alike.locals, alike.decoder, alike.bareDecoder⟩
        exact congrArg (fun m : Method => { m with registers := count }) alike.method
  · exact alike

/-- After a fault the lines are skipped. -/
theorem of_fault (alike : o.Alike depth payload bare) (faulty : o.method.fault.isSome)
    (depth' : Nat) (payload' : Option String) : o.Alike depth' payload' bare where
  method := alike.method
  locals := alike.locals
  decoder none := by simp [none] at faulty
  bareDecoder none := by
    rw [alike.isSome_fault, none] at faulty
    cases faulty

/-- A line outside blocks. -/
theorem addLine (alike : o.Alike 0 payload bare) (path : String) (n n' : Nat) {raw : List Char}
    {next : Place} (turn : Place.bodyTurn payload (Text.trim (stripComment raw)) = .moves next) :
    ∃ payload', next = .body payload' ∧
      Alike 0 payload' (o.addLine path n raw) (bare.addLine path n' raw) := by
  unfold OpenMethod.addLine
  by_cases faulty : o.method.fault.isSome
  · rw [if_pos faulty, if_pos (alike.isSome_fault ▸ faulty)]
    obtain ⟨payload', rfl⟩ := bodyTurn_stays turn
    exact ⟨payload', rfl, alike.of_fault faulty 0 payload'⟩
  · have bareFaulty := alike.isSome_fault ▸ faulty
    rw [if_neg faulty, if_neg bareFaulty]
    rw [alike.decoder (by simpa using faulty), alike.bareDecoder (by simpa using bareFaulty)]
    split
    · obtain ⟨payload', rfl⟩ := bodyTurn_stays turn
      exact ⟨payload', rfl, (alike.decoded 0 payload).fail rfl⟩
    · rename_i i d decoded
      obtain ⟨payload', rfl, rfl⟩ := decode_moves decoded turn
      refine ⟨payload', rfl, ?_⟩
      have counted := (alike.decoded 0 payload').setCount path n n' i
      dsimp only
      split
      · rename_i badCount
        rw [if_pos (counted.isSome_fault ▸ badCount)]
        exact counted
      · rename_i goodCount
        rw [if_neg (counted.isSome_fault ▸ goodCount)]
        exact counted.push n n' i

/-- A directive that a block consists of adds nothing to the method. -/
theorem addLine_directive (alike : o.Alike depth payload bare) (path : String) (n : Nat)
    {raw : List Char} {op text : String} {depth' : Nat} (uncounted : op = "" ∨ op = ".annotation")
    (decoded : Decoder.decode ⟨payload, depth⟩ raw =
      .ok (⟨op, .directive, text⟩, ⟨payload, depth'⟩)) :
    Alike depth' payload (o.addLine path n raw) bare := by
  unfold OpenMethod.addLine
  by_cases faulty : o.method.fault.isSome
  · rw [if_pos faulty]
    exact alike.of_fault faulty depth' payload
  · have kept : OpenMethod.setCount { o with decoder := ⟨payload, depth'⟩ } path n
        ⟨op, .directive, text⟩ = { o with decoder := ⟨payload, depth'⟩ } := by
      rcases uncounted with rfl | rfl <;> rfl
    rw [if_neg faulty, alike.decoder (by simpa using faulty), decoded]
    dsimp only
    rw [kept, if_neg faulty]
    refine ⟨?_, alike.locals, fun _ => rfl, alike.bareDecoder⟩
    rw [content_push]
    exact alike.method

/-- The first line of a block. -/
theorem addLine_opens (alike : o.Alike 0 payload bare) (path : String) (n : Nat) {raw : List Char}
    (turn : Place.bodyTurn payload (Text.trim (stripComment raw)) = .opensBlock) :
    Alike 1 payload (o.addLine path n raw) bare :=
  alike.addLine_directive path n (.inr rfl) (decode_opens turn)

/-- A line inside blocks. -/
theorem addLine_inside (alike : o.Alike (depth + 1) payload bare) (path : String) (n : Nat)
    (raw : List Char) :
    Alike ((Mark.read (Text.trim (stripComment raw))).after (depth + 1)) payload
      (o.addLine path n raw) bare :=
  alike.addLine_directive path n (.inl rfl) (decode_inside payload depth raw)

end OpenMethod.Alike

/-! ## Reading a line -/

/-- Reading has come equally far in the file, `depth` blocks being open, and in the file without
them. -/
inductive ParseState.Alike : Nat → Place → ParseState → ParseState → Prop where
  | declarations {c bare : ClassDecl} {depth : Nat} (cls : c.content = bare.content) :
    Alike depth .declarations ⟨c, none, depth⟩ ⟨bare, none, 0⟩
  | body {c bare : ClassDecl} {o o' : OpenMethod} {depth : Nat} {payload : Option String}
    (cls : c.content = bare.content) (method : o.Alike depth payload o') :
    Alike depth (.body payload) ⟨c, some o, 0⟩ ⟨bare, some o', 0⟩

/-- Both readings refuse the file for the same reason, or both go on, related by `R`. -/
def Agree {α β : Type} (R : α → β → Prop) : Except ParseError α → Except ParseError β → Prop
  | .ok a, .ok b => R a b
  | .error e, .error e' => e.unnumbered = e'.unnumbered
  | _, _ => False

theorem Agree.bind {α β γ δ : Type} {R : α → β → Prop} {S : γ → δ → Prop}
    {x : Except ParseError α} {y : Except ParseError β} {f : α → Except ParseError γ}
    {g : β → Except ParseError δ} (start : Agree R x y)
    (rest : ∀ a b, R a b → Agree S (f a) (g b)) : Agree S (x >>= f) (y >>= g) := by
  cases x with
  | error e =>
    cases y with
    | error e' => exact start
    | ok b => exact start.elim
  | ok a =>
    cases y with
    | error e' => exact start.elim
    | ok b => exact rest a b start

theorem parseField_agree (n n' : Nat) (text : List Char) :
    Agree (fun f f' => f.unnumbered = f'.unnumbered) (parseField n text) (parseField n' text) := by
  unfold parseField
  dsimp only
  split
  · split
    · rfl
    · split <;> rfl
  · rfl

theorem parseMethod_agree (n n' : Nat) (words : List (List Char)) :
    Agree (fun m m' => m = m') (parseMethod n words) (parseMethod n' words) := by
  unfold parseMethod
  dsimp only
  split
  · split <;> rfl
  · rfl

theorem content_push_field {c bare : ClassDecl} (same : c.content = bare.content)
    {f f' : FieldDecl} (field : f.unnumbered = f'.unnumbered) :
    ({ c with fields := c.fields.push f } : ClassDecl).content =
      ({ bare with fields := bare.fields.push f' } : ClassDecl).content := by
  have := congrArg (fun d : ClassDecl => { d with fields := d.fields.push f.unnumbered }) same
  simpa [ClassDecl.content, field] using this

theorem content_push_method {c bare : ClassDecl} (same : c.content = bare.content)
    {m m' : Method} (method : m.content = m'.content) :
    ({ c with methods := c.methods.push m } : ClassDecl).content =
      ({ bare with methods := bare.methods.push m' } : ClassDecl).content := by
  have := congrArg (fun d : ClassDecl => { d with methods := d.methods.push m.content }) same
  simpa [ClassDecl.content, method] using this

/-- A declaration that changes the header changes it in both classes. -/
theorem ParseState.Alike.header {c bare : ClassDecl} (same : c.content = bare.content)
    (edit : ClassDecl → ClassDecl) (header : ∀ d : ClassDecl, (edit d).content = edit d.content) :
    ParseState.Alike 0 .declarations ⟨edit c, none, 0⟩ ⟨edit bare, none, 0⟩ :=
  .declarations (by rw [header c, header bare, same])

/-- A declaration reads the same in both files. -/
theorem declare_agree {c bare : ClassDecl} (same : c.content = bare.content) (n n' : Nat)
    {raw : List Char} {next : Place} (skipped : ¬ isSkipped raw)
    (turn : Place.declarations.turn raw = .moves next) :
    Agree (ParseState.Alike 0 next) (ParseState.declare ⟨c, none, 0⟩ n (Text.trim raw))
      (ParseState.declare ⟨bare, none, 0⟩ n' (Text.trim raw)) := by
  simp only [Place.turn, if_neg skipped] at turn
  unfold ParseState.declare
  cases words : Text.words (Text.trim raw) with
  | nil =>
    rw [words] at turn
    cases turn
    exact .declarations same
  | cons word operands =>
    simp only [words] at turn ⊢
    by_cases block : String.ofList word = ".annotation"
    · rw [if_pos block] at turn
      cases turn
    rw [if_neg block] at turn
    by_cases method : String.ofList word = ".method"
    · rw [if_pos method] at turn
      cases turn
      simp only [method, String.reduceEq, if_false, if_true]
      refine (parseMethod_agree n n' (word :: operands)).bind fun m m' eq => ?_
      subst eq
      exact .body same ⟨rfl, rfl, fun _ => rfl, fun _ => rfl⟩
    rw [if_neg method] at turn
    cases turn
    simp only [if_neg block, if_neg method]
    split
    · split
      · rename_i flags name _
        exact ParseState.Alike.header same
          (fun d => { d with flags := flags, name := String.ofList name }) fun _ => rfl
      · rfl
    · split
      · split
        · rename_i name _
          exact ParseState.Alike.header same
            (fun d => { d with superName := String.ofList name }) fun _ => rfl
        · exact .declarations same
      · split
        · split
          · rename_i name _
            exact ParseState.Alike.header same
              (fun d => { d with interfaces := d.interfaces ++ [String.ofList name] }) fun _ => rfl
          · exact .declarations same
        · split
          · exact ParseState.Alike.header same (fun d => { d with source := _ }) fun _ => rfl
          · split
            · exact (parseField_agree n n' (Text.trim raw)).bind fun f f' field =>
                .declarations (content_push_field same field)
            · exact .declarations same

theorem declare_opens (c : ClassDecl) (n : Nat) {raw : List Char} (skipped : ¬ isSkipped raw)
    (turn : Place.declarations.turn raw = .opensBlock) :
    ParseState.declare ⟨c, none, 0⟩ n (Text.trim raw) = .ok ⟨c, none, 1⟩ := by
  simp only [Place.turn, if_neg skipped] at turn
  unfold ParseState.declare
  cases words : Text.words (Text.trim raw) with
  | nil =>
    rw [words] at turn
    cases turn
  | cons word operands =>
    simp only [words] at turn ⊢
    by_cases block : String.ofList word = ".annotation"
    · simp only [block, String.reduceEq, if_false, if_true]
    · rw [if_neg block] at turn
      split at turn <;> cases turn

/-- A line that is skipped opens no block. -/
theorem skipped_of_opensBlock {place : Place} {raw : List Char}
    (turn : place.turn raw = .opensBlock) : ¬ isSkipped raw := by
  intro skipped
  simp only [Place.turn, if_pos skipped] at turn
  cases turn

namespace ParseState.Alike
variable {depth : Nat} {place : Place} {s bare : ParseState}

theorem advance_moves (alike : Alike 0 place s bare) (n n' : Nat) {raw : List Char} {next : Place}
    (turn : place.turn raw = .moves next) :
    Agree (Alike 0 next) (s.advance n raw) (bare.advance n' raw) := by
  unfold ParseState.advance
  by_cases skipped : isSkipped raw
  · simp only [Place.turn, if_pos skipped] at turn
    cases turn
    simp only [isSkipped] at skipped
    simp only [if_pos skipped]
    exact alike
  have read := skipped
  simp only [isSkipped] at read
  cases alike with
  | declarations cls =>
    simp only [if_neg read, Nat.lt_irrefl, if_false]
    exact declare_agree cls n n' skipped turn
  | @body c bare o o' _ payload cls method =>
    have path : c.content.path = bare.content.path := congrArg ClassDecl.path cls
    by_cases ends : Text.trim raw = ".end method".toList
    · simp only [Place.turn, if_neg skipped, if_pos ends] at turn
      cases turn
      simp only [if_neg read, if_pos ends]
      exact .declarations (content_push_method cls method.finish)
    · simp only [Place.turn, if_neg skipped, if_neg ends] at turn
      obtain ⟨payload', rfl, method⟩ := method.addLine c.path n n' turn
      simp only [if_neg read, if_neg ends]
      rw [show c.path = bare.path from path] at method ⊢
      exact .body cls method

theorem advance_opens (alike : Alike 0 place s bare) (n : Nat) {raw : List Char}
    (turn : place.turn raw = .opensBlock) :
    ∃ t, s.advance n raw = .ok t ∧ Alike 1 place t bare := by
  have skipped := skipped_of_opensBlock turn
  have read := skipped
  simp only [isSkipped] at read
  unfold ParseState.advance
  cases alike with
  | declarations cls =>
    simp only [if_neg read, Nat.lt_irrefl, if_false]
    exact ⟨_, declare_opens _ n skipped turn, .declarations cls⟩
  | @body c bare o o' _ payload cls method =>
    have ends : Text.trim raw ≠ ".end method".toList := by
      intro ends
      simp only [Place.turn, if_neg skipped, if_pos ends] at turn
      cases turn
    simp only [Place.turn, if_neg skipped, if_neg ends] at turn
    simp only [if_neg read, if_neg ends]
    exact ⟨_, rfl, .body cls (method.addLine_opens c.path n turn)⟩

theorem advance_inside (alike : Alike (depth + 1) place s bare) (n : Nat) {raw : List Char}
    (ends : Text.trim raw ≠ ".end method".toList) :
    ∃ t, s.advance n raw = .ok t ∧ Alike ((place.read raw).after (depth + 1)) place t bare := by
  unfold ParseState.advance Place.read
  by_cases skipped : isSkipped raw
  · rw [if_pos skipped]
    simp only [isSkipped] at skipped
    exact ⟨s, by simp only [if_pos skipped], alike⟩
  rw [if_neg skipped]
  simp only [isSkipped] at skipped
  cases alike with
  | declarations cls =>
    simp only [if_neg skipped, Nat.succ_pos, if_true, annotationDepth_eq]
    exact ⟨_, rfl, .declarations cls⟩
  | @body c bare o o' _ payload cls method =>
    simp only [if_neg skipped, if_neg ends]
    exact ⟨_, rfl, .body cls (method.addLine_inside c.path n raw)⟩

/-- A fatal fault is found in both files or in neither. -/
theorem halt? (alike : Alike depth place s bare) :
    s.halt?.map BodyFault.unnumbered = bare.halt?.map BodyFault.unnumbered := by
  cases alike with
  | declarations => rfl
  | @body c bare o o' _ _ _ method =>
    have same : o.method.fault.map BodyFault.unnumbered = o'.method.fault.map BodyFault.unnumbered :=
      congrArg (fun m : Method => m.fault) method.method
    have fatal : BodyFault.isFatal = BodyFault.isFatal ∘ BodyFault.unnumbered := by
      funext fault
      cases fault <;> rfl
    change (o.method.fault.filter BodyFault.isFatal).map _ = (o'.method.fault.filter BodyFault.isFatal).map _
    rw [fatal, ← Option.filter_map, ← Option.filter_map, same]

theorem step_moves (alike : Alike 0 place s bare) (n n' : Nat) {raw : List Char} {next : Place}
    (turn : place.turn raw = .moves next) :
    Agree (fun t t' => Alike 0 next t t' ∧ t'.halt? = none) (s.step n raw) (bare.step n' raw) := by
  refine (alike.advance_moves n n' turn).bind fun t t' alike => ?_
  have same := alike.halt?
  cases found : t.halt? with
  | none =>
    rw [found] at same
    rw [Option.map_eq_none_iff.mp same.symm]
    exact ⟨alike, Option.map_eq_none_iff.mp same.symm⟩
  | some fault =>
    rw [found] at same
    obtain ⟨fault', found', same⟩ := Option.map_eq_some_iff.mp same.symm
    rw [found']
    exact congrArg ParseError.halted same.symm

/-- A line that the file without blocks does not have is not fatal. -/
theorem step_eq (goesOn : bare.halt? = none) {n : Nat} {raw : List Char}
    (advanced : ∃ t, s.advance n raw = .ok t ∧ Alike depth place t bare) :
    ∃ t, s.step n raw = .ok t ∧ Alike depth place t bare := by
  obtain ⟨t, isNext, alike⟩ := advanced
  have same := alike.halt?
  rw [goesOn] at same
  exact ⟨t, step_eq_ok.mpr ⟨isNext, Option.map_eq_none_iff.mp same⟩, alike⟩

/-- Reading the file beside reading it without its annotation blocks. -/
theorem run_separate {lines bareLines : List (List Char)} {inner : List (Place × List Char)}
    (alike : Alike depth place s bare) (goesOn : bare.halt? = none) (n n' : Nat)
    (separated : separate? place depth lines = some (bareLines, inner))
    (counted : ∀ line ∈ inner, line.1.read line.2 = Mark.written line.2) :
    Agree (fun t t' => ∃ place, Alike 0 place t t') (s.run n lines) (bare.run n' bareLines) := by
  induction lines generalizing depth place s bare n n' bareLines inner with
  | nil =>
    simp only [separate?, Option.ite_none_right_eq_some] at separated
    obtain ⟨rfl, eq⟩ := separated
    cases eq
    exact ⟨place, alike⟩
  | cons raw rest ih =>
    unfold separate? at separated
    cases depth with
    | zero =>
      rw [if_pos rfl] at separated
      cases turn : place.turn raw with
      | opensBlock =>
        rw [turn] at separated
        obtain ⟨t, step, opened⟩ := step_eq goesOn (alike.advance_opens n turn)
        simp only [ParseState.run, step]
        exact ih opened goesOn _ _ separated counted
      | moves next =>
        simp only [turn, Option.map_eq_some_iff, Prod.exists] at separated
        obtain ⟨bareRest, innerRest, separated, eq⟩ := separated
        cases eq
        exact (alike.step_moves n n' turn).bind fun t t' next => ih next.1 next.2 _ _ separated counted
    | succ depth =>
      rw [if_neg (Nat.succ_ne_zero depth)] at separated
      split at separated
      · cases separated
      · rename_i ends
        simp only [Option.map_eq_some_iff, Prod.exists] at separated
        obtain ⟨bareRest, innerRest, separated, eq⟩ := separated
        cases eq
        obtain ⟨t, step, inside⟩ := step_eq goesOn (alike.advance_inside n ends)
        rw [counted (place, raw) List.mem_cons_self] at inside
        simp only [ParseState.run, step]
        exact ih inside goesOn _ _ separated fun line mem => counted line (.tail _ mem)

end ParseState.Alike

/-! ## The whole file -/

theorem own_content (c : ClassDecl) : c.own.content = c.content.own := by
  simp only [ClassDecl.own, ClassDecl.content, Array.map_map]
  rfl

theorem content_bind {α β : Type} {R : α → β → Prop} {x : Except ParseError α}
    {y : Except ParseError β} {f : α → Except ParseError ClassDecl}
    {g : β → Except ParseError ClassDecl} (start : Agree R x y)
    (rest : ∀ a b, R a b → content (f a) = content (g b)) :
    content (x >>= f) = content (y >>= g) := by
  cases x with
  | error e =>
    cases y with
    | error e' => exact congrArg Except.error start
    | ok b => exact start.elim
  | ok a =>
    cases y with
    | error e' => exact start.elim
    | ok b => exact rest a b start

/-- Reading a file comes to the same as reading it without its annotation blocks: the header, the
fields and methods, their lines and faults. The readers have to count every line of a block the way
the grammar does, and to have room for every line. -/
theorem content_parse_separate (path text bare : String) {inner : List (Place × List Char)}
    (fit : Text.Fits text.toList) (bareFit : Text.Fits bare.toList)
    (separated : separate? .declarations 0 (Text.lines text.toList) =
      some (Text.lines bare.toList, inner))
    (counted : ∀ line ∈ inner, line.1.read line.2 = Mark.written line.2) :
    content (parse path text) = content (parse path bare) := by
  have start : ParseState.Alike 0 .declarations ⟨{ path := path }, none, 0⟩
      ⟨{ path := path }, none, 0⟩ := .declarations rfl
  rw [parse_of_fits path fit, parse_of_fits path bareFit]
  refine content_bind (start.run_separate rfl 1 1 separated counted) fun s s' alike => ?_
  obtain ⟨place, alike⟩ := alike
  cases alike with
  | @declarations c bare _ cls =>
    have name : c.content.name = bare.content.name := congrArg ClassDecl.name cls
    have name : c.name = bare.name := name
    dsimp only [ParseState.close]
    rw [name]
    split
    · rfl
    · simp only [content]
      rw [own_content, own_content, cls]
  | @body c bare o o' _ payload cls method =>
    have name : c.content.name = bare.content.name := congrArg ClassDecl.name cls
    have text : ({ o.method.content with owner := c.content.name } : Method).text =
        ({ o'.method.content with owner := bare.content.name } : Method).text := by
      rw [name, method.method]
    exact congrArg (fun text => Except.error (ParseError.unterminated text)) text

/-! ## Files with blocks -/

/-- The file with the given lines. -/
def fileText (lines : List String) : String :=
  String.ofList (lines.flatMap fun line => line.toList ++ ['\n'])

theorem toList_fileText (lines : List String) :
    (fileText lines).toList = lines.flatMap fun line => line.toList ++ ['\n'] :=
  String.toList_ofList

theorem toList_fileText_of_spelled {lines : List String} {spelled : List (List Char)}
    (spells : List.Forall₂ (fun line letters => line = String.ofList letters) lines spelled) :
    (fileText lines).toList = spelled.flatMap fun letters => letters ++ ['\n'] := by
  rw [toList_fileText, ← Text.map_toList_of_spelled spells, List.flatMap_map]

/-- The lines of a file are read as they were written. -/
theorem sizedLines_fileText {lines : List String} {spelled : List (List Char)}
    (spells : lines.map String.toList = spelled) (free : ∀ letters ∈ spelled, '\n' ∉ letters ∧ '\r' ∉ letters) :
    Text.sizedLines (fileText lines).toList = spelled.map Text.Line.ofText := by
  subst spells
  have read := Text.sizedLines_flatMap free
  rwa [List.flatMap_map, ← toList_fileText] at read

/-- What is tested of a reading holds of the state it comes to. -/
theorem holds_of_all {read : Except ParseError ParseState} {test : ParseState → Bool}
    (holds : read.toOption.all test = true) : ∀ s, read = .ok s → test s = true := by
  rintro s rfl
  simpa [Except.toOption] using holds

/-- A class with a block of its own, one for its field and one in its method; every subannotation
stands at the start of a line. -/
def annotated : String := fileText
  [".class public LMain;", ".super Ljava/lang/Object;", ".annotation runtime LOuter;",
    "    inner =", "    .subannotation LInner;", "        size = 0x1", "    .end subannotation",
    ".end annotation", ".field public static key:I = 0x1", "    .annotation runtime LNamed;",
    "        name = \"key # one\"", "    .end annotation", ".end field",
    ".method public static run()V", "    .registers 1",
    "    .annotation system Ldalvik/annotation/Throws;", "        value = \x7b",
    "            Ljava/lang/Exception;", "        \x7d", "    .end annotation # thrown",
    "    const/4 v0, 0x0", "    return-void", ".end method"]

/-- The class without the blocks. -/
def unannotated : String := fileText
  [".class public LMain;", ".super Ljava/lang/Object;", ".field public static key:I = 0x1",
    ".end field", ".method public static run()V", "    .registers 1", "    const/4 v0, 0x0",
    "    return-void", ".end method"]

/-- The lines of the blocks, without the first of each. -/
def annotationLines : List (Place × List Char) :=
  [(.declarations, "    inner =".toList), (.declarations, "    .subannotation LInner;".toList),
    (.declarations, "        size = 0x1".toList), (.declarations, "    .end subannotation".toList),
    (.declarations, ".end annotation".toList),
    (.declarations, "        name = \"key # one\"".toList),
    (.declarations, "    .end annotation".toList),
    (.body none, "        value = \x7b".toList),
    (.body none, "            Ljava/lang/Exception;".toList), (.body none, "        \x7d".toList),
    (.body none, "    .end annotation # thrown".toList)]

theorem content_parse_annotated :
    Text.Fits annotated.toList ∧ Text.Fits unannotated.toList ∧
      separate? .declarations 0 (Text.lines annotated.toList) =
        some (Text.lines unannotated.toList, annotationLines) ∧
      (∀ line ∈ annotationLines, line.1.read line.2 = Mark.written line.2) ∧
      content (parse "Main.smali" annotated) = content (parse "Main.smali" unannotated) := by
  have ⟨fit, bareFit, separated⟩ : Text.Fits annotated.toList ∧ Text.Fits unannotated.toList ∧
      separate? .declarations 0 (Text.lines annotated.toList) =
        some (Text.lines unannotated.toList, annotationLines) := by
    rw [annotated, unannotated, toList_fileText_of_spelled (by repeat' constructor),
      toList_fileText_of_spelled (by repeat' constructor), annotationLines]
    repeat rw [String.toList_ofList]
    decide +kernel
  have counted : ∀ line ∈ annotationLines, line.1.read line.2 = Mark.written line.2 := by
    rw [annotationLines]
    repeat rw [String.toList_ofList]
    decide +kernel
  exact ⟨fit, bareFit, separated, counted,
    content_parse_separate "Main.smali" _ _ fit bareFit separated counted⟩

/-- A block whose subannotation stands behind the name of its value: its end is counted and its
start is not, so that the entry after it is taken for an instruction. -/
def namedEntry : String := fileText
  [".class public LMain;", ".method public static run()V", "    .registers 1",
    "    .annotation runtime LOuter;", "        inner = .subannotation LInner;",
    "            size = 0x1", "        .end subannotation", "        name = \"x\"",
    "    .end annotation", "    return-void", ".end method"]

/-- A block with an array of subannotations: the end before the comma is not counted, so that the
field and the method after the block are taken for entries. -/
def arrayEntry : String := fileText
  [".class public LMain;", ".annotation runtime LOuter;", "    all = \x7b",
    "        .subannotation LInner;", "        .end subannotation,",
    "        .subannotation LInner;", "        .end subannotation", "    \x7d",
    ".end annotation", ".field public static key:I", ".method public static run()V",
    "    .registers 1", "    return-void", ".end method"]

/-- The number of fields and, for each method, whether it has a fault. -/
def membersOf : Except ParseError ClassDecl → Nat × List Bool
  | .ok c => (c.fields.size, c.methods.toList.map fun m => m.fault.isSome)
  | .error _ => (0, [])

theorem entries_hide_code :
    (∃ bare inner, separate? .declarations 0 (Text.lines namedEntry.toList) =
        some (Text.lines bare.toList, inner) ∧
      content (parse "Main.smali" namedEntry) ≠ content (parse "Main.smali" bare)) ∧
    ∃ bare inner, separate? .declarations 0 (Text.lines arrayEntry.toList) =
        some (Text.lines bare.toList, inner) ∧
      content (parse "Main.smali" arrayEntry) ≠ content (parse "Main.smali" bare) := by
  constructor
  · refine ⟨fileText [".class public LMain;", ".method public static run()V", "    .registers 1",
        "    return-void", ".end method"],
      ["        inner = .subannotation LInner;", "            size = 0x1",
        "        .end subannotation", "        name = \"x\"",
        "    .end annotation"].map fun line => (.body none, line.toList), ?_, fun same => ?_⟩
    · rw [namedEntry, toList_fileText_of_spelled (by repeat' constructor),
        toList_fileText_of_spelled (by repeat' constructor)]
      simp only [List.map_cons, List.map_nil]
      repeat rw [String.toList_ofList]
      decide +kernel
    · have members := congrArg membersOf same
      rw [namedEntry, parse, parse, toList_fileText_of_spelled (by repeat' constructor),
        toList_fileText_of_spelled (by repeat' constructor)] at members
      exact absurd members (by decide +kernel)
  · refine ⟨fileText [".class public LMain;", ".field public static key:I",
        ".method public static run()V", "    .registers 1", "    return-void", ".end method"],
      ["    all = \x7b", "        .subannotation LInner;", "        .end subannotation,",
        "        .subannotation LInner;", "        .end subannotation", "    \x7d",
        ".end annotation"].map fun line => (.declarations, line.toList), ?_, fun same => ?_⟩
    · rw [arrayEntry, toList_fileText_of_spelled (by repeat' constructor),
        toList_fileText_of_spelled (by repeat' constructor)]
      simp only [List.map_cons, List.map_nil]
      repeat rw [String.toList_ofList]
      decide +kernel
    · have members := congrArg membersOf same
      rw [arrayEntry, parse, parse, toList_fileText_of_spelled (by repeat' constructor),
        toList_fileText_of_spelled (by repeat' constructor)] at members
      exact absurd members (by decide +kernel)

end SmaliTrace.ClassFile
