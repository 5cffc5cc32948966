import SmaliTrace.ClassFile.Basic
import SmaliTrace.Smali.Literal
import SmaliTrace.Text.Lines

/-!
Reading a class file. A line that cannot be decoded marks its method and leaves the rest of the class
intact; only malformed declarations, a line there is no room for, an open method and a missing class
name refuse the file. A line that there is no coming back from ends the reading at once.
-/
namespace SmaliTrace.ClassFile
open SmaliTrace.Smali

/-- Why a class file is refused. -/
inductive ParseError where
  | malformedClass (line : Nat)
  | malformedField (line : Nat)
  | untypedField (line : Nat)
  | malformedMethod (line : Nat)
  | badMethod (line : Nat) (error : DecodeError)
  | lineTooLong
  | unterminated (method : String)
  | missingClass
  | halted (fault : BodyFault)
deriving DecidableEq, Repr

/-- The message of a refused class file. -/
def ParseError.message : ParseError → String
  | .malformedClass line => toString line ++ ": malformed .class"
  | .malformedField line => toString line ++ ": malformed .field"
  | .untypedField line => toString line ++ ": field without type"
  | .malformedMethod line => toString line ++ ": malformed .method"
  | .badMethod line error => toString line ++ ": " ++ error.message
  | .lineTooLong => "bufio.Scanner: token too long"
  | .unterminated method => "method " ++ method ++ " is not terminated"
  | .missingClass => "missing .class directive"
  | .halted fault => fault.message

/-- A method whose end has not been read yet. `locals` is the count of its last `.locals`, or
negative. -/
structure OpenMethod where
  method : Method
  decoder : Decoder := {}
  locals : Int := -1

/-- The state between two lines of a class file. -/
structure ParseState where
  cls : ClassDecl
  current : Option OpenMethod := none
  annotations : Nat := 0

/-- Fixes the frame size and gives every register its canonical spelling. -/
def OpenMethod.finish (o : OpenMethod) : Method :=
  let m := o.method
  let m := if 0 ≤ o.locals then { m with registers := Number.wrap (o.locals + m.paramSlots) } else m
  let spell (l : CodeLine) : CodeLine :=
    { l with instruction.operation := l.operation.mapRegisters m.canonical }
  { m with lines := m.lines.map spell }

/-- Notes the count of a `.registers` or `.locals` line. -/
def OpenMethod.setCount (o : OpenMethod) (path : String) (line : Nat) (i : Instruction) :
    OpenMethod :=
  if i.op = ".registers" || i.op = ".locals" then
    let text := Text.trim (Text.without i.op i.text.toList)
    match Number.readSigned text with
    | .error e =>
      { o with method.fault := some (.badCount path line (String.ofList text) e) }
    | .ok n =>
      if i.op = ".locals" then { o with locals := n } else { o with method.registers := n }
  else o

/-- Reads one line of the body; after a fault the lines up to the end are skipped. -/
def OpenMethod.addLine (o : OpenMethod) (path : String) (line : Nat) (raw : List Char) :
    OpenMethod :=
  if o.method.fault.isSome then o
  else
    match o.decoder.decode raw with
    | .error e => { o with method.fault := some (.undecodable path line e) }
    | .ok (i, decoder) =>
      let o := { o with decoder := decoder }.setCount path line i
      if o.method.fault.isSome then o
      else { o with method.lines := o.method.lines.push ⟨line, i⟩ }

/-- Reads a field declaration. -/
def parseField (line : Nat) (text : List Char) : Except ParseError FieldDecl :=
  let (declaration, value) :=
    match Text.cut? " = ".toList text with
    | some (before, after) => (before, Text.trim after)
    | none => (text, [])
  let (flags, rest) := splitFlags ((Text.words declaration).drop 1)
  match rest with
  | [typed] =>
    match Text.cut? [':'] typed with
    | none => .error (.untypedField line)
    | some (name, type) =>
      if name.isEmpty then .error (.untypedField line)
      else
        .ok { owner := "", name := String.ofList name, type := String.ofList type, flags := flags,
              value := String.ofList value, number := line, text := String.ofList text }
  | _ => .error (.malformedField line)

/-- Reads a method declaration. -/
def parseMethod (line : Nat) (words : List (List Char)) : Except ParseError Method :=
  let (flags, rest) := splitFlags (words.drop 1)
  match rest with
  | [declaration] =>
    match MethodRef.parse declaration with
    | .error e => .error (.badMethod line e)
    | .ok r =>
      .ok { owner := "", name := r.name, params := r.params, result := r.result, flags := flags }
  | _ => .error (.malformedMethod line)

/-- The depth of open annotations after a line inside one. -/
def annotationDepth (depth : Nat) (text : List Char) : Nat :=
  if text = ".end annotation".toList || text = ".end subannotation".toList then depth - 1
  else if Text.startsWith ".annotation" text || Text.startsWith ".subannotation" text then depth + 1
  else depth

/-- Reads a line outside methods and annotations. -/
def ParseState.declare (s : ParseState) (line : Nat) (text : List Char) :
    Except ParseError ParseState :=
  let words := Text.words text
  match words with
  | [] => .ok s
  | word :: operands =>
    let directive := String.ofList word
    if directive = ".class" then
      match splitFlags operands with
      | (flags, [name]) =>
        .ok { s with cls.flags := flags, cls.name := String.ofList name }
      | _ => .error (.malformedClass line)
    else if directive = ".super" then
      match operands with
      | name :: _ => .ok { s with cls.superName := String.ofList name }
      | [] => .ok s
    else if directive = ".implements" then
      match operands with
      | name :: _ => .ok { s with cls.interfaces := s.cls.interfaces ++ [String.ofList name] }
      | [] => .ok s
    else if directive = ".source" then
      let source :=
        match Literal.unquote (Text.trim (Text.without ".source" text)) with
        | .ok v => v.toText
        | .error _ => ""
      .ok { s with cls.source := source }
    else if directive = ".field" then do
      let field ← parseField line text
      .ok { s with cls.fields := s.cls.fields.push field }
    else if directive = ".annotation" then .ok { s with annotations := s.annotations + 1 }
    else if directive = ".method" then do
      let method ← parseMethod line words
      .ok { s with current := some { method := method } }
    else .ok s

/-- What one line does to the state. -/
def ParseState.advance (s : ParseState) (line : Nat) (raw : List Char) :
    Except ParseError ParseState :=
  let text := Text.trim raw
  if text.isEmpty || Text.startsWith "#" text then .ok s
  else
    match s.current with
    | some o =>
      if text = ".end method".toList then
        .ok { s with current := none, cls.methods := s.cls.methods.push o.finish }
      else .ok { s with current := some (o.addLine s.cls.path line raw) }
    | none =>
      if 0 < s.annotations then
        .ok { s with annotations := annotationDepth s.annotations text }
      else s.declare line text

/-- The fatal fault of the open method. -/
def ParseState.halt? (s : ParseState) : Option BodyFault :=
  s.current.bind fun o => o.method.fault.filter BodyFault.isFatal

/-- Reads one line, and goes on unless it is fatal. -/
def ParseState.step (s : ParseState) (line : Nat) (raw : List Char) :
    Except ParseError ParseState := do
  let next ← s.advance line raw
  match next.halt? with
  | some fault => .error (.halted fault)
  | none => .ok next

/-- Reads the lines, the first of them number `line`. -/
def ParseState.run (s : ParseState) (line : Nat) : List (List Char) → Except ParseError ParseState
  | [] => .ok s
  | raw :: rest => do
    let s ← s.step line raw
    s.run (line + 1) rest

/-- The class with its name as the owner of its members. -/
def ClassDecl.own (c : ClassDecl) : ClassDecl :=
  { c with
    fields := c.fields.map fun f => { f with owner := c.name }
    methods := c.methods.map fun m => { m with owner := c.name } }

/-- What the state is at the end of the file. -/
def ParseState.close (s : ParseState) : Except ParseError ClassDecl :=
  match s.current with
  | some o => .error (.unterminated { o.method with owner := s.cls.name }.text)
  | none => if s.cls.name = "" then .error .missingClass else .ok s.cls.own

/-- Reads the rest of a file, its first line number `line`. The reading ends at the first line there is
no room for, and the file is refused for it unless an earlier line refuses it. -/
def ParseState.readLines (s : ParseState) (line : Nat) (lines : List Text.Line) :
    Except ParseError ClassDecl := do
  let last ← s.run line ((lines.takeWhile Text.Line.fits).map Text.Line.text)
  if lines.all Text.Line.fits then last.close else .error .lineTooLong

/-- Reads a class file. -/
def parse (path : String) (text : String) : Except ParseError ClassDecl :=
  ParseState.readLines { cls := { path := path } } 1 (Text.sizedLines text.toList)

end SmaliTrace.ClassFile
