import SmaliTrace.Smali.Instruction

/-!
Decoding body lines one after another. The decoder remembers an open payload and the depth of open
annotations, so that their lines are not taken for instructions.
-/
namespace SmaliTrace.Smali

/-- Whether a scan stands inside a quoted text, and right behind a backslash there. -/
structure QuoteState where
  quoted : Bool := false
  escaped : Bool := false

/-- The state after one more character. -/
def QuoteState.step (q : QuoteState) (c : Char) : QuoteState :=
  if q.escaped then { q with escaped := false }
  else if q.quoted && c = '\\' then { q with escaped := true }
  else if c = '"' then { q with quoted := !q.quoted }
  else q

/-- The character counts as itself and not as part of a quoted text. -/
def QuoteState.plain (q : QuoteState) : Bool := !q.quoted && !q.escaped

/-- The text up to the first number sign outside quotes. -/
def stripCommentFrom (q : QuoteState) : List Char → List Char
  | [] => []
  | c :: rest => if q.plain && c = '#' then [] else c :: stripCommentFrom (q.step c) rest

/-- The line without its comment. -/
def stripComment (line : List Char) : List Char := stripCommentFrom {} line

/-- Splits at the commas outside quotes and braces; `operand` holds the open operand, last character
first, and `depth` the open braces. -/
def splitOperandsFrom (q : QuoteState) (depth : Int) (operand : List Char) :
    List Char → List (List Char)
  | [] => [Text.trim operand.reverse]
  | c :: rest =>
    if q.plain && depth = 0 && c = ',' then
      Text.trim operand.reverse :: splitOperandsFrom q depth [] rest
    else
      let depth :=
        if q.plain && c = '\x7b' then depth + 1
        else if q.plain && c = '\x7d' then depth - 1
        else depth
      splitOperandsFrom (q.step c) depth (c :: operand) rest

/-- The operands of a line, trimmed, without the empty ones. -/
def splitOperands (s : List Char) : List (List Char) :=
  (splitOperandsFrom {} 0 [] s).filter fun operand => !operand.isEmpty

/-- The text up to the first space or tab. -/
def firstWord (s : List Char) : List Char := s.takeWhile fun c => c ≠ ' ' && c ≠ '\t'

/-- The text after its first word, trimmed. -/
def afterFirstWord (s : List Char) : List Char := Text.trim (s.dropWhile fun c => c ≠ ' ' && c ≠ '\t')

/-- The name of a label operand, whose colon may be missing. -/
def labelOf (operand : List Char) : String := String.ofList (Text.without ":" operand)

/-- Reads the range in braces and the handler of a catch directive. -/
def parseTryRange (text : List Char) (type : String) (s : List Char) :
    Except DecodeError CatchRange :=
  match s with
  | '\x7b' :: inside =>
    match Text.cut? ['\x7d'] inside with
    | none => fail text .missingTryRange
    | some (bounds, handler) =>
      match Text.pieces "..".toList bounds with
      | [start, stop] =>
        let range : CatchRange :=
          ⟨type, labelOf (Text.trim start), labelOf (Text.trim stop), labelOf (Text.trim handler)⟩
        if range.start = "" || range.stop = "" || range.handler = "" then
          fail text .incompleteCatch
        else .ok range
      | _ => fail text .malformedTryRange
  | _ => fail text .missingTryRange

/-- Decodes a `.catch` or `.catchall`. -/
def decodeCatch (text : List Char) : Except DecodeError Operation :=
  let op := firstWord text
  let rest := afterFirstWord text
  if op = ".catch".toList then
    match Text.cut? [' '] rest with
    | none => fail text .missingExceptionType
    | some (type, range) =>
      (parseTryRange text (String.ofList type) (Text.trim range)).map .handler
  else if op = ".catchall".toList then (parseTryRange text "" rest).map .handler
  else fail text .unknownCatch

/-- Decodes any other directive; `.local` names a register. -/
def decodeDirective (text : List Char) : Except DecodeError Operation :=
  if firstWord text = ".local".toList then
    match splitOperands (afterFirstWord text) with
    | [] => fail text .missingRegister
    | register :: _ => .ok (.localName (String.ofList register))
  else .ok .directive

/-- A wrong number of operands. -/
def wrongCount (text : List Char) (wanted : Nat) (operands : List (List Char)) :
    Except DecodeError Operation :=
  fail text (.operandCount wanted operands.length)

/-- Decodes the operands of an instruction of the given family, without checking the registers. -/
def decodeOperands (text op : List Char) (kind : Kind) (operands : List (List Char)) :
    Except DecodeError Operation :=
  let str := String.ofList
  match kind with
  | .nop =>
    match operands with
    | [] => .ok .nop
    | _ => wrongCount text 0 operands
  | .ret =>
    if op = "return-void".toList then
      match operands with
      | [] => .ok .returnVoid
      | _ => wrongCount text 0 operands
    else
      match operands with
      | [r] => .ok (.returnValue (str r))
      | _ => wrongCount text 1 operands
  | .move =>
    match operands with
    | [a, b] => .ok (.move (str a) (str b))
    | _ => wrongCount text 2 operands
  | .arrayLength =>
    match operands with
    | [a, b] => .ok (.arrayLength (str a) (str b))
    | _ => wrongCount text 2 operands
  | .unaryMath =>
    match operands with
    | [a, b] => .ok (.unaryMath (str a) (str b))
    | _ => wrongCount text 2 operands
  | .moveResult =>
    match operands with
    | [r] => .ok (.moveResult (str r))
    | _ => wrongCount text 1 operands
  | .moveException =>
    match operands with
    | [r] => .ok (.moveException (str r))
    | _ => wrongCount text 1 operands
  | .monitor =>
    match operands with
    | [r] => .ok (.monitor (str r))
    | _ => wrongCount text 1 operands
  | .throw =>
    match operands with
    | [r] => .ok (.throw (str r))
    | _ => wrongCount text 1 operands
  | .const =>
    match operands with
    | [r, x] =>
      if op = "const-class".toList then .ok (.constClass (str r) (str x))
      else .ok (.constLiteral (str r) (str x))
    | _ => wrongCount text 2 operands
  | .checkCast =>
    match operands with
    | [r, t] => .ok (.checkCast (str r) (str t))
    | _ => wrongCount text 2 operands
  | .newInstance =>
    match operands with
    | [r, t] => .ok (.newInstance (str r) (str t))
    | _ => wrongCount text 2 operands
  | .instanceOf =>
    match operands with
    | [a, b, t] => .ok (.instanceOf (str a) (str b) (str t))
    | _ => wrongCount text 3 operands
  | .newArray =>
    match operands with
    | [a, b, t] => .ok (.newArray (str a) (str b) (str t))
    | _ => wrongCount text 3 operands
  | .filledNewArray =>
    match operands with
    | [list, t] => (parseRegisterList text list).map fun rs => .filledNewArray rs (str t)
    | _ => wrongCount text 2 operands
  | .fillArrayData =>
    match operands with
    | [r, l] => .ok (.fillArrayData (str r) (labelOf l))
    | _ => wrongCount text 2 operands
  | .switch =>
    match operands with
    | [r, l] => .ok (.switch (str r) (labelOf l))
    | _ => wrongCount text 2 operands
  | .goto =>
    match operands with
    | [l] => .ok (.goto (labelOf l))
    | _ => wrongCount text 1 operands
  | .branch =>
    if Text.endsWith "z" op then
      match operands with
      | [r, l] => .ok (.ifZero (str r) (labelOf l))
      | _ => wrongCount text 2 operands
    else
      match operands with
      | [a, b, l] => .ok (.ifCompare (str a) (str b) (labelOf l))
      | _ => wrongCount text 3 operands
  | .compare =>
    match operands with
    | [a, b, c] => .ok (.compare (str a) (str b) (str c))
    | _ => wrongCount text 3 operands
  | .arrayGet =>
    match operands with
    | [a, b, c] => .ok (.arrayGet (str a) (str b) (str c))
    | _ => wrongCount text 3 operands
  | .arrayPut =>
    match operands with
    | [a, b, c] => .ok (.arrayPut (str a) (str b) (str c))
    | _ => wrongCount text 3 operands
  | .instanceGet =>
    match operands with
    | [a, b, f] => (FieldRef.parse f).map fun field => .instanceGet (str a) (str b) field
    | _ => wrongCount text 3 operands
  | .instancePut =>
    match operands with
    | [a, b, f] => (FieldRef.parse f).map fun field => .instancePut (str a) (str b) field
    | _ => wrongCount text 3 operands
  | .staticGet =>
    match operands with
    | [r, f] => (FieldRef.parse f).map fun field => .staticGet (str r) field
    | _ => wrongCount text 2 operands
  | .staticPut =>
    match operands with
    | [r, f] => (FieldRef.parse f).map fun field => .staticPut (str r) field
    | _ => wrongCount text 2 operands
  | .invoke =>
    match operands with
    | list :: m :: _ => do
      let registers ← parseRegisterList text list
      let method ← MethodRef.parse m
      .ok (.invoke registers method)
    | _ => fail text .missingMethod
  | .binaryMath =>
    if Text.contains "/lit" op then
      match operands with
      | [a, b, x] => .ok (.literalMath (str a) (str b) (str x))
      | _ => wrongCount text 3 operands
    else if Text.endsWith "/2addr" op then
      match operands with
      | [a, b] => .ok (.inPlaceMath (str a) (str b))
      | _ => wrongCount text 2 operands
    else
      match operands with
      | [a, b, c] => .ok (.binaryMath (str a) (str b) (str c))
      | _ => wrongCount text 3 operands
  | .directive | .label | .handler | .dataStart | .data | .dataEnd =>
    fail text (.unknownOpcode (str op))

/-- Decodes an instruction and checks that its register operands are registers. -/
def decodeInstruction (text : List Char) : Except DecodeError Operation := do
  let op := firstWord text
  match classify? op with
  | none => fail text (.unknownOpcode (String.ofList op))
  | some kind =>
    let operation ← decodeOperands text op kind (splitOperands (afterFirstWord text))
    match operation.registers.find? fun r => !isRegister r.toList with
    | some r => fail text (.badRegister r)
    | none => .ok operation

/-- What the decoder remembers between lines: the directive of an open payload and the number of
open annotations. -/
structure Decoder where
  payload : Option String := none
  annotations : Nat := 0
deriving DecidableEq, Repr, Inhabited

namespace Decoder

/-- A line inside annotations: it only opens or closes one. -/
def insideAnnotation (d : Decoder) (text : List Char) : Decoder :=
  if text = ".end annotation".toList || text = ".end subannotation".toList then
    { d with annotations := d.annotations - 1 }
  else if Text.startsWith ".annotation" text || Text.startsWith ".subannotation" text then
    { d with annotations := d.annotations + 1 }
  else d

/-- Decodes an entry of the open payload. -/
def decodeEntry (payload : String) (text : List Char) : Except DecodeError Operation :=
  if payload = ".packed-switch" then
    match text with
    | ':' :: name => .ok (.data "" (String.ofList name))
    | _ => fail text .unlabelledEntry
  else if payload = ".sparse-switch" then
    match Text.pieces "->".toList text with
    | [key, target] => .ok (.data (String.ofList (Text.trim key)) (labelOf (Text.trim target)))
    | _ => fail text .malformedEntry
  else .ok (.data (String.ofList text) "")

/-- The text opens a payload. -/
def opensPayload (text : List Char) : Bool :=
  Text.startsWith ".packed-switch" text || Text.startsWith ".sparse-switch" text ||
    Text.startsWith ".array-data" text

/-- Decodes a line outside payloads and annotations. -/
def decodePlain (d : Decoder) (text : List Char) : Except DecodeError (Instruction × Decoder) :=
  let whole := String.ofList text
  let word := String.ofList (firstWord text)
  match text with
  | ':' :: name => .ok (⟨"", .label (String.ofList name), whole⟩, d)
  | _ =>
    if Text.startsWith ".catch" text then
      (decodeCatch text).map fun operation => (⟨word, operation, whole⟩, d)
    else if opensPayload text then
      .ok (⟨word, .dataStart (String.ofList (afterFirstWord text)), whole⟩,
        { d with payload := some word })
    else if Text.startsWith ".annotation" text then
      .ok (⟨".annotation", .directive, whole⟩, { d with annotations := d.annotations + 1 })
    else if Text.startsWith "." text then
      (decodeDirective text).map fun operation => (⟨word, operation, whole⟩, d)
    else (decodeInstruction text).map fun operation => (⟨word, operation, whole⟩, d)

/-- Decodes one line. A blank line or a comment is an empty directive; a failure leaves the decoder
as it was. -/
def decode (d : Decoder) (line : List Char) : Except DecodeError (Instruction × Decoder) :=
  let text := Text.trim (stripComment line)
  let whole := String.ofList text
  if text.isEmpty then .ok (⟨"", .directive, whole⟩, d)
  else if 0 < d.annotations then .ok (⟨"", .directive, whole⟩, d.insideAnnotation text)
  else
    match d.payload with
    | some payload =>
      if text = ".end ".toList ++ Text.without "." payload.toList then
        .ok (⟨whole, .dataEnd, whole⟩, { d with payload := none })
      else (decodeEntry payload text).map fun operation => (⟨"", operation, whole⟩, d)
    | none => d.decodePlain text

/-! ### The decoder as it is written to -/

/-- Decoding that writes to the decoder on its way. What is written stays if decoding fails behind it. -/
abbrev Action := EStateM DecodeError Decoder

/-- The instruction of a line with the word and the operation that it has, if it has one. -/
def giving (word : String) (text : List Char) (operation : Except DecodeError Operation) : Action Instruction :=
  match operation with
  | .ok operation => pure ⟨word, operation, String.ofList text⟩
  | .error e => throw e

/-- Reads a line inside annotations. -/
def readInside (text : List Char) : Action Instruction := do
  if text = ".end annotation".toList || text = ".end subannotation".toList then
    modify fun d => { d with annotations := d.annotations - 1 }
  else if Text.startsWith ".annotation" text || Text.startsWith ".subannotation" text then
    modify fun d => { d with annotations := d.annotations + 1 }
  giving "" text (.ok .directive)

/-- Reads a line of the open payload. -/
def readEntry (payload : String) (text : List Char) : Action Instruction := do
  if text = ".end ".toList ++ Text.without "." payload.toList then
    modify fun d => { d with payload := none }
    giving (String.ofList text) text (.ok .dataEnd)
  else giving "" text (decodeEntry payload text)

/-- Reads a line outside payloads and annotations. -/
def readPlain (text : List Char) : Action Instruction := do
  let word := String.ofList (firstWord text)
  match text with
  | ':' :: name => giving "" text (.ok (.label (String.ofList name)))
  | _ =>
    if Text.startsWith ".catch" text then giving word text (decodeCatch text)
    else if opensPayload text then
      modify fun d => { d with payload := some word }
      giving word text (.ok (.dataStart (String.ofList (afterFirstWord text))))
    else if Text.startsWith ".annotation" text then
      modify fun d => { d with annotations := d.annotations + 1 }
      giving ".annotation" text (.ok .directive)
    else if Text.startsWith "." text then giving word text (decodeDirective text)
    else giving word text (decodeInstruction text)

/-- Reads one line. -/
def read (line : List Char) : Action Instruction := do
  let text := Text.trim (stripComment line)
  if text.isEmpty then giving "" text (.ok .directive)
  else if 0 < (← get).annotations then readInside text
  else
    match (← get).payload with
    | some payload => readEntry payload text
    | none => readPlain text

end Decoder

end SmaliTrace.Smali
