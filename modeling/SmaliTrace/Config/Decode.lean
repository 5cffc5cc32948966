import SmaliTrace.Config.Basic
import SmaliTrace.FileTree
import SmaliTrace.Log
import SmaliTrace.Yaml.Decoder

/-!
Configurations in YAML. A document lies over the default configuration: keys that it does not mention
keep their default. Unknown and repeated keys, and values of the wrong type, refuse the document; a
value that is given as nothing is empty.
-/
namespace SmaliTrace.Config
open SmaliTrace.Yaml (Node Decoder)
open SmaliTrace.Slice (Redirect SignatureTable)

/-- Puts an entry into a table, which has none for the signature. -/
def putEntry {α : Type} (decode : Node → Decoder α) (key : String) (value : Node)
    (table : SignatureTable α) : Decoder (SignatureTable α) := do
  let a ← decode value
  if (SignatureTable.get? table key).isSome then failure else pure (SignatureTable.put table key a)

/-- Sets one end of a redirect. -/
def setRedirect (key : String) (value : Node) (r : Redirect) : Decoder Redirect := do
  match key with
  | "src" => pure { r with src := ← Decoder.int value }
  | "dst" => pure { r with dst := ← Decoder.int value }
  | _ => failure

/-- Sets one limit. -/
def setLimit (key : String) (value : Node) (o : Slice.Options) : Decoder Slice.Options := do
  match key with
  | "maxFuzzy" => pure { o with maxFuzzy := ← Decoder.int value }
  | "maxCompletedSearches" => pure { o with maxCompleted := ← Decoder.int value }
  | "maxIterations" => pure { o with maxIterations := ← Decoder.int value }
  | "arraySearchDepth" => pure { o with arrayDepth := ← Decoder.int value }
  | "trackForwardReturns" => pure { o with trackForwardReturns := ← Decoder.bool value }
  | _ => failure

/-- Sets one part of a backward rule. -/
def setBackward (key : String) (value : Node) (r : BackwardRule) : Decoder BackwardRule := do
  match key with
  | "name" => pure { r with name := ← Decoder.string value }
  | "class" => pure { r with owner := ← Decoder.string value }
  | "method" => pure { r with method := ← Decoder.string value }
  | "params" => pure { r with params := ← Decoder.string value }
  | "param" => pure { r with param := ← Decoder.int value }
  | "trackReturn" => pure { r with trackReturn := ← Decoder.bool value }
  | "insecure" => pure { r with insecure := ← Decoder.list Decoder.string value }
  | _ => failure

/-- Sets one part of a forward rule. -/
def setForward (key : String) (value : Node) (r : ForwardRule) : Decoder ForwardRule := do
  match key with
  | "name" => pure { r with name := ← Decoder.string value }
  | "objectType" => pure { r with objectType := ← Decoder.string value }
  | "class" => pure { r with owner := ← Decoder.string value }
  | "method" => pure { r with method := ← Decoder.string value }
  | "params" => pure { r with params := ← Decoder.string value }
  | "literal" => pure { r with literal := ← Decoder.string value }
  | _ => failure

/-- All limits at zero, over the tables of the options. -/
def withoutLimits (o : Slice.Options) : Slice.Options :=
  { o with maxFuzzy := 0, maxCompleted := 0, maxIterations := 0, arrayDepth := 0,
           trackForwardReturns := false }

/-- Sets one part of a configuration. -/
def setPart (key : String) (value : Node) (c : Config) : Decoder Config := do
  match key with
  | "excludePkgs" => pure { c with excluded := ← Decoder.list Decoder.string value }
  | "limits" =>
    pure { c with options := ← Decoder.record setLimit (withoutLimits c.options) c.options value }
  | "whitelist" =>
    let put := putEntry (Decoder.list Decoder.int)
    pure { c with options.whitelist := ← Decoder.record put [] c.options.whitelist value }
  | "redirects" =>
    let put := putEntry (Decoder.record setRedirect ⟨0, 0⟩ ⟨0, 0⟩)
    pure { c with options.redirects := ← Decoder.record put [] c.options.redirects value }
  | "backward" =>
    pure { c with backward := ← Decoder.list (Decoder.record setBackward {} {}) value }
  | "forward" =>
    pure { c with forward := ← Decoder.list (Decoder.record setForward {} {}) value }
  | _ => failure

/-- The configuration without any setting. -/
def zero : Config :=
  { excluded := []
    options := withoutLimits { Slice.Options.default with whitelist := [], redirects := [] }
    backward := [], forward := [] }

/-- Why no configuration is read. -/
inductive ReadError where
  | unreadable (error : FileError)
  | undecodable
  | invalid (reason : Invalid)
deriving DecidableEq, Repr

/-- The message of a configuration that is not read. -/
def ReadError.message : ReadError → String
  | .unreadable error => "reading config: " ++ error.message
  | .undecodable => "decoding config: malformed or unexpected YAML"
  | .invalid reason => reason.message

/-- Checks a configuration, for those that read it. -/
def checked (c : Config) : Except ReadError Checked :=
  match c.check with
  | .ok c => .ok c
  | .error reason => .error (.invalid reason)

/-- Reads a configuration from a YAML text. -/
def parse (text : String) : Except ReadError Checked :=
  match Yaml.parse text with
  | none => .error .undecodable
  | some none => checked default
  | some (some document) =>
    match (Decoder.record setPart zero default document).run {} with
    | some (c, _) => checked c
    | none => .error .undecodable

/-- The file that is read if it exists and no other is asked for. -/
def defaultFile : String := "dexslice.yml"

/-- Reads the configuration at a path. -/
def load {α : Type} (t : FileTree α) (text : α → String) (path : String) :
    Except ReadError Checked :=
  match t.read path with
  | .error e => .error (.unreadable e)
  | .ok content => parse (text content)

/-- Reads the configuration at the path, or the default file if the path is empty and the file exists,
or takes the default configuration. -/
def find {α : Type} (t : FileTree α) (text : α → String) (path : String) :
    Logged ReadError Checked := do
  if path ≠ "" then load t text path
  else
    match t.find "stat" defaultFile with
    | .ok _ =>
      Logged.info ("Using " ++ defaultFile)
      load t text defaultFile
    | .error _ => checked default

end SmaliTrace.Config
