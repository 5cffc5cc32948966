import SmaliTrace.BlockGraph.Basic

/-!
Control flow between the lines of a body: jumps, switch tables and exception handlers, before any
blocks exist.
-/
namespace SmaliTrace.BlockGraph
open SmaliTrace.ClassFile SmaliTrace.Smali

/-- Why the control flow of a body cannot be resolved. -/
inductive Flaw where
  | unresolvedLabel (name : String)
  | notAPayload
  | invertedRange
  | outsideBlocks
deriving DecidableEq, Repr

/-- The wording of a flaw. -/
def Flaw.text : Flaw → String
  | .unresolvedLabel name => "unresolved label :" ++ name
  | .notAPayload => "switch label does not point at a payload"
  | .invertedRange => "try range ends before it starts"
  | .outsideBlocks => "edge target outside of any block"

/-- A flaw at a line. -/
structure FlowError where
  line : LineLabel
  flaw : Flaw
deriving DecidableEq, Repr

/-- The message of a flow error. -/
def FlowError.message (e : FlowError) : String := e.line.show ++ ": " ++ e.flaw.text

/-- A step of control from one line to another. A bridge leads from the end of a try range to the
code after its handlers. -/
structure Link where
  src : Nat
  dst : Nat
  bridge : Bool := false
deriving DecidableEq, Repr, Inhabited

/-- The links and try ranges found so far. -/
structure Flow where
  links : List Link := []
  tries : List TryRange := []
deriving DecidableEq, Repr, Inhabited

/-- The line that defines the label, the last one if there are several. -/
def labelLine? (m : Method) (name : String) : Option Nat :=
  (List.range m.lines.size).reverse.find? fun i =>
    m.lines[i]?.map CodeLine.operation = some (.label name)

/-- The line that a label leads to; `line` is blamed if there is none. -/
def target (m : Method) (line : Nat) (name : String) : Except FlowError Nat :=
  match labelLine? m name with
  | some i => .ok i
  | none => .error ⟨(m.lineLabel? line).getD default, .unresolvedLabel name⟩

/-- The kind of a line. -/
def lineKind? (m : Method) (line : Nat) : Option Kind := m.lines[line]?.map CodeLine.kind

/-- The line is executed. -/
def executable (m : Method) (line : Nat) : Bool :=
  match m.lines[line]? with
  | some l => l.executable
  | none => false

/-- The lines after the given one. -/
def linesAfter (m : Method) (line : Nat) : List Nat := (List.range m.lines.size).drop (line + 1)

/-- The targets of a switch, through the payload that its label points at. -/
def switchTargets (m : Method) (line : Nat) (label : String) : Except FlowError (List Nat) := do
  let table ← target m line label
  let (before, payload) := (linesAfter m table).span fun i => lineKind? m i ≠ some .dataStart
  if before.any (executable m) then
    .error ⟨(m.lineLabel? line).getD default, .notAPayload⟩
  else
    let entries := (payload.drop 1).takeWhile fun i => lineKind? m i = some .data
    entries.mapM fun i => target m i ((m.lines[i]?.map fun l => l.operation.labelName).getD "")

/-- Adds a handler to the try range with the given bounds. -/
def addHandler (start stop handler : Nat) (type : String) : List TryRange → List TryRange
  | [] => [⟨start, stop, [handler], [type]⟩]
  | t :: rest =>
    if t.start = start ∧ t.stop = stop then
      { t with handlers := t.handlers ++ [handler], types := t.types ++ [type] } :: rest
    else t :: addHandler start stop handler type rest

/-- Adds the edges of a catch directive: every executable line of the range may reach the handler, and
the last of them reaches the line after the last directive of a run. -/
def addCatch (m : Method) (flow : Flow) (line : Nat) (range : CatchRange) :
    Except FlowError Flow := do
  let start ← target m line range.start
  let stop ← target m line range.stop
  let handler ← target m line range.handler
  if stop < start then .error ⟨(m.lineLabel? line).getD default, .invertedRange⟩
  else
    let type := if range.type = "" then "*" else range.type
    let covered := (List.range m.lines.size).filter fun i =>
      start ≤ i && i ≤ stop && executable m i
    let bridge : List Link :=
      match covered.getLast?, lineKind? m (line + 1) with
      | some last, some kind =>
        if kind = .handler then [] else [{ src := last, dst := line + 1, bridge := true }]
      | _, _ => []
    .ok { links := flow.links ++ covered.map (fun i => { src := i, dst := handler }) ++ bridge
          tries := addHandler start stop handler type flow.tries }

/-- The link to the next line, if there is one. -/
def fallThrough (m : Method) (line : Nat) : List Link :=
  if line + 1 < m.lines.size then [{ src := line, dst := line + 1 }] else []

/-- Adds what one line contributes. -/
def addLine (m : Method) (flow : Flow) (line : Nat) : Except FlowError Flow :=
  match m.lines[line]?.map CodeLine.operation with
  | some (.ifZero _ label) | some (.ifCompare _ _ label) => do
    let dst ← target m line label
    .ok { flow with links := flow.links ++ fallThrough m line ++ [{ src := line, dst := dst }] }
  | some (.switch _ label) => do
    let targets ← switchTargets m line label
    .ok { flow with
          links := flow.links ++ fallThrough m line ++ targets.map fun dst => { src := line, dst := dst } }
  | some (.goto label) => do
    let dst ← target m line label
    .ok { flow with links := flow.links ++ [{ src := line, dst := dst }] }
  | some (.handler range) => addCatch m flow line range
  | _ => .ok flow

/-- The links and try ranges of a body. -/
def collectFlow (m : Method) : Except FlowError Flow :=
  (List.range m.lines.size).foldlM (addLine m) {}

end SmaliTrace.BlockGraph
