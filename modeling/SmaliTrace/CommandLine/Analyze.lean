import SmaliTrace.CommandLine.Flags
import SmaliTrace.CommandLine.Outcome
import SmaliTrace.Config.Decode
import SmaliTrace.Report.Console
import SmaliTrace.Report.Page

/-!
The command that analyzes class files and reports what its rules find.
-/
namespace SmaliTrace.CommandLine.Analyze
open SmaliTrace.Store

/-- The flags of the command. -/
def flags : Flags :=
  [("debug", .switch), ("config", .text), ("stats", .switch), ("markdown", .text), ("html", .text),
    ("db", .text), ("max-fuzzy", .number), ("help", .switch), ("h", .switch)]

/-- Why the command fails. -/
inductive CommandError where
  | config (error : Config.ReadError)
  | analysis (error : Analysis.Failure)
  | unwritten (error : FileError)
  | store (error : StoreError)

/-- The message of a failed command. -/
def CommandError.message : CommandError → String
  | .config error => error.message
  | .analysis error => error.message
  | .unwritten error => error.message
  | .store error => error.message

/-- The part of a command that fails for a reason of its own. -/
def failing {ε α : Type} (cause : ε → CommandError) (x : Logged ε α) : Logged CommandError α := do
  let (outcome, log) := x.outcome
  Logged.sayAll log
  match outcome with
  | .ok a => pure a
  | .error e => throw (cause e)

/-- The configuration of a run: a fuzzy limit on the command line wins unless it is negative. -/
def configure (files : Workspace) (s : Settings) : Logged CommandError Config := do
  let checked ← failing .config (Config.find files FileContent.toText (s.text "config"))
  let config := checked.config
  match s.number? "max-fuzzy" with
  | some n => pure (if 0 ≤ n then { config with options.maxFuzzy := n } else config)
  | none => pure config

/-- Writes a report to the path, unless that is empty. -/
def writeReport (path report : String) (files : Workspace) : Logged CommandError Workspace := do
  if path = "" then pure files
  else
    match files.write path (.text report) with
    | .error e => throw (.unwritten e)
    | .ok files =>
      Logged.info ("Report written to " ++ path)
      pure files

/-- Stores the results in the database at the path, unless that is empty. -/
def storeResults (path : String) (r : Analysis.Result) (files : Workspace) :
    Logged CommandError Workspace := do
  if path = "" then pure files
  else
    let stored := do
      let store ← Store.openAt ⟨files, none⟩ path
      store.saveResult r
    match stored with
    | .error e => throw (.store e)
    | .ok store =>
      Logged.info ("Results stored in " ++ path)
      pure store.files

/-- The analysis before anything is written. -/
def analyze (files : Workspace) (s : Settings) (paths : List String) :
    Logged CommandError Analysis.Result := do
  let config ← configure files s
  let result ← failing .analysis
    (Analysis.run files FileContent.toText paths config false (s.switch "stats"))
  Logged.sayAll (Report.Console.log result)
  pure result

/-- What is done with the result, in order. -/
def writeAll (s : Settings) (r : Analysis.Result) : List (Workspace → Logged CommandError Workspace) :=
  [writeReport (s.text "markdown") (Report.markdown r), writeReport (s.text "html") (Report.html r),
    storeResults (s.text "db") r]

/-- Takes the steps one after another; the files of those before a failing step stay. -/
def takeSteps (before : List LogEntry) (files : Workspace) :
    List (Workspace → Logged CommandError Workspace) → Outcome
  | [] => { files := files, log := before }
  | step :: rest =>
    match (step files).outcome with
    | (.ok files, log) => takeSteps (before ++ log) files rest
    | (.error e, log) =>
      { files := files, exit := 1, log := before ++ log ++ [⟨.fatal, e.message⟩] }

/-- The log without what is only for debugging, unless that is asked for. -/
def visible (s : Settings) (log : List LogEntry) : List LogEntry :=
  if s.switch "debug" then log else log.filter fun e => e.level ≠ .debug

/-- Analyzes the paths and reports the findings. -/
def perform (files : Workspace) (s : Settings) (paths : List String) : Outcome :=
  match (analyze files s paths).outcome with
  | (.error e, log) => { files := files, exit := 1, log := visible s log ++ [⟨.fatal, e.message⟩] }
  | (.ok result, log) => takeSteps (visible s log) files (writeAll s result)

/-- The message of a command line that gives a flag by both of its names. -/
def bothForms : String := "Cannot use two forms of the same flag: h help"

/-- The flags that ask for help. -/
def helpFlags : Flags := [("help", .switch), ("h", .switch)]

/-- The argument names a flag that asks for help, behind up to three dashes. -/
def namesHelp (argument : String) : Bool :=
  match argument.toList with
  | '-' :: '-' :: '-' :: body | '-' :: '-' :: body | '-' :: body =>
    !body.isEmpty && (helpFlags.lookup (String.ofList (body.takeWhile (· ≠ '=')))).isSome
  | _ => false

/-- Divides the arguments of the help command into those that go to the front, which are its flags
and what follows a flag without a value, and the others. Nothing behind two dashes moves. -/
def divide (mayBeValue : Bool) : List String → List String × List String
  | [] => ([], [])
  | argument :: rest =>
    if argument = "--" then ([], argument :: rest)
    else if mayBeValue && !Text.startsWith "-" argument.toList then
      let (front, others) := divide false rest
      (argument :: front, others)
    else if namesHelp argument then
      let (front, others) := divide (!argument.contains '=') rest
      (argument :: front, others)
    else
      let (front, others) := divide mayBeValue rest
      (front, argument :: others)

/-- The outcome of a command line that is refused: the help is shown and the reason told. -/
def refuse (files : Workspace) (message : String) : Outcome :=
  { files := files, exit := 1, help := true, log := [⟨.fatal, message⟩] }

/-- Reads flags, and tells whether help is asked for. -/
def readFlags (flags : Flags) (arguments : List String) :
    Except String (Settings × List String × Bool) :=
  let parsed := parseFlags flags arguments
  let s := parsed.settings
  match parsed.outcome with
  | .error e => .error e.message
  | .ok others =>
    if s.isSet "help" && s.isSet "h" then .error bothForms
    else .ok (s, others, s.switch "help" || s.switch "h")

/-- The help command, with the arguments behind it. It knows one topic, itself. -/
def showHelp (files : Workspace) (arguments : List String) : Outcome :=
  let (front, others) := divide false arguments
  match readFlags helpFlags (front ++ others) with
  | .error message => refuse files message
  | .ok (_, topics, asked) =>
    match topics with
    | [] => { files := files, help := true }
    | topic :: _ =>
      if asked || topic ∈ ["", "help", "h"] then { files := files, help := true }
      else { files := files, exit := 3 }

/-- Runs the command. Refused flags show the help and fail; the help is also shown if it is asked for,
or if no argument is given. -/
def run (files : Workspace) (arguments : List String) : Outcome :=
  let given := (parseFlags flags arguments).settings
  if given.isSet "help" && given.isSet "h" then refuse files bothForms
  else
    match readFlags flags arguments with
    | .error message => refuse files message
    | .ok (s, paths, asked) =>
      if asked then { files := files, help := true }
      else
        match paths with
        | [] => { files := files, help := true }
        | first :: rest =>
          if first = "help" || first = "h" then showHelp files rest else perform files s paths

end SmaliTrace.CommandLine.Analyze
