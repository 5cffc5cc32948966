import SmaliTrace.Analysis.Basic

/-!
The report of an analysis as log messages, coloured for a terminal.
-/
namespace SmaliTrace.Report.Console
open SmaliTrace.Analysis SmaliTrace.Slice

/-- The character that begins a colour code. -/
def escapeChar : Char := '\x1b'

/-- A text in the colour with the code. -/
def coloured (code : Nat) (s : String) : String :=
  String.ofList [escapeChar, '['] ++ toString code ++ "m" ++ s ++ String.ofList [escapeChar] ++ "[0m"

/-- The colour of values. -/
def magenta : String → String := coloured 35

/-- The colour of rule names. -/
def brightGreen : String → String := coloured 92

/-- What follows a colour code at the head of the text: the escape character, a bracket, digits and
the letter `m`. -/
def afterColour? : List Char → Option (List Char)
  | c :: '[' :: rest =>
    if c = escapeChar then
      match rest.takeWhile Char.isDigit, rest.dropWhile Char.isDigit with
      | _ :: _, 'm' :: rest => some rest
      | _, _ => none
    else none
  | _ => none

theorem length_afterColour? {s rest : List Char} (h : afterColour? s = some rest) :
    rest.length < s.length := by
  unfold afterColour? at h
  split at h
  · rename_i c body
    have shorter := (List.dropWhile_sublist Char.isDigit (l := body)).length_le
    split at h
    · split at h
      · cases h
        simp_all
        omega
      · cases h
    · cases h
  · cases h

/-- The text without its colour codes. -/
def uncoloured (s : List Char) : List Char :=
  match s with
  | [] => []
  | c :: rest =>
    match _h : afterColour? (c :: rest) with
    | some after => uncoloured after
    | none => c :: uncoloured rest
termination_by s.length
decreasing_by
  · exact length_afterColour? _h
  · simp

/-- The headline of a finding. -/
def findingHeadline (f : Finding) : String :=
  " " ++ f.constant.kind.name ++ " " ++ magenta f.constant.value.quote ++ " for rule " ++
    brightGreen f.rule ++ " at " ++ f.file ++ ":" ++ toString f.line

/-- The headline of a value that a forward rule reaches. -/
def constantHeadline (p : Program) (rule : String) (c : Constant) : String :=
  " " ++ brightGreen rule ++ " reaches " ++ magenta c.value.toText ++ " at " ++ (p.label c.line).show

/-- The line under the number of a finding. -/
def ruler : String := String.ofList (List.replicate 100 '=')

/-- The values that the forward rules reach, as headlines. -/
def reached (r : Result) : List String :=
  (r.rules.filter fun rule => !rule.backward).flatMap fun rule =>
    (rule.criterion.allConstants r.program.label).map (constantHeadline r.program rule.name)

/-- The messages of the report. -/
def messages (r : Result) : List String :=
  let finding (f : Finding) (i : Nat) : List String :=
    ["Finding #" ++ toString (i + 1), ruler, findingHeadline f] ++
      f.trace.map fun l => "\t" ++ (r.program.label l).show
  (r.findings.zipIdx.flatMap fun (f, i) => finding f i) ++ reached r ++
    ["Found " ++ toString r.findings.length ++ " finding(s)"]

/-- The report as log entries. -/
def log (r : Result) : List LogEntry := (messages r).map fun m => ⟨.info, m⟩

/-- The headlines of the report without colours. -/
def headlines (r : Result) : List String :=
  (r.findings.map findingHeadline ++ reached r).map fun h => String.ofList (uncoloured h.toList)

end SmaliTrace.Report.Console
