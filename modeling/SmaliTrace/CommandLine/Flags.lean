import SmaliTrace.Number.Radix
import SmaliTrace.Text.Quoted

/-!
Flags on a command line: `-name`, `-name value` or `-name=value`, with one dash or two, before the
other arguments.
-/
namespace SmaliTrace.CommandLine

/-- What values a flag takes: a switch needs none. -/
inductive FlagKind where
  | switch
  | text
  | number
deriving DecidableEq, Repr

/-- The value of a flag. -/
inductive FlagValue where
  | switch (on : Bool)
  | text (s : String)
  | number (n : Int)
deriving DecidableEq, Repr

/-- Why flags are refused. -/
inductive FlagError where
  | undefined (name : String)
  | malformed (argument : String)
  | missing (name : String)
  | badSwitch (value name : String)
  | badNumber (value name : String) (reason : Number.ReadError)
deriving DecidableEq, Repr

/-- The message of refused flags. -/
def FlagError.message : FlagError → String
  | .undefined name => "flag provided but not defined: -" ++ name
  | .malformed argument => "bad flag syntax: " ++ argument
  | .missing name => "flag needs an argument: -" ++ name
  | .badSwitch value name =>
    "invalid boolean value " ++ Text.quote value ++ " for -" ++ name ++ ": parse error"
  | .badNumber value name reason =>
    "invalid value " ++ Text.quote value ++ " for flag -" ++ name ++ ": " ++
      match reason with
      | .malformed => "parse error"
      | .outOfRange => reason.text

/-- The flags that a command knows. -/
abbrev Flags := List (String × FlagKind)

/-- The flags that were given, the last one first. -/
abbrev Settings := List (String × FlagValue)

namespace Settings

/-- The flag was given. -/
def isSet (s : Settings) (name : String) : Bool := s.any fun (n, _) => n = name

/-- The switch is on. -/
def switch (s : Settings) (name : String) : Bool := s.lookup name = some (.switch true)

/-- The text of a flag, empty if it was not given. -/
def text (s : Settings) (name : String) : String :=
  match s.lookup name with
  | some (.text t) => t
  | _ => ""

/-- The number of a flag, if it was given. -/
def number? (s : Settings) (name : String) : Option Int :=
  match s.lookup name with
  | some (.number n) => some n
  | _ => none

end Settings

/-- The words for on and off. -/
def readSwitch? (s : String) : Option Bool :=
  if s ∈ ["1", "t", "T", "TRUE", "true", "True"] then some true
  else if s ∈ ["0", "f", "F", "FALSE", "false", "False"] then some false
  else none

/-- An argument by its form. -/
inductive Argument where
  | other
  | stop
  | malformed
  | flag (name : String) (value : Option String)
deriving DecidableEq, Repr

/-- Splits a flag at its first equals sign. -/
def splitFlag (s : List Char) : Argument :=
  match s.dropWhile (· ≠ '=') with
  | _ :: value => .flag (String.ofList (s.takeWhile (· ≠ '='))) (some (String.ofList value))
  | [] => .flag (String.ofList s) none

/-- The form of an argument. A lone dash is no flag, and two dashes end the flags. -/
def Argument.ofString (s : String) : Argument :=
  let named (body : List Char) : Argument :=
    match body with
    | [] => .malformed
    | c :: _ => if c = '-' || c = '=' then .malformed else splitFlag body
  match s.toList with
  | ['-', '-'] => .stop
  | '-' :: '-' :: body => named body
  | ['-'] => .other
  | '-' :: body => named body
  | _ => .other

/-- Reads the value of a flag. -/
def readValue (name value : String) : FlagKind → Except FlagError FlagValue
  | .switch =>
    match readSwitch? value with
    | some on => .ok (.switch on)
    | none => .error (.badSwitch value name)
  | .text => .ok (.text value)
  | .number =>
    match Number.readRadix value.toList with
    | .ok n => .ok (.number n)
    | .error reason => .error (.badNumber value name reason)

/-- What came of reading flags: those that were given, up to the fault if there is one, and the
arguments behind them. -/
structure ParsedFlags where
  settings : Settings
  outcome : Except FlagError (List String)

/-- Reads flags up to the first argument that is none. -/
def parseFrom (flags : Flags) (given : Settings) : List String → ParsedFlags
  | [] => ⟨given, .ok []⟩
  | argument :: rest =>
    let refuse (e : FlagError) : ParsedFlags := ⟨given, .error e⟩
    match Argument.ofString argument with
    | .other => ⟨given, .ok (argument :: rest)⟩
    | .stop => ⟨given, .ok rest⟩
    | .malformed => refuse (.malformed argument)
    | .flag name value =>
      match flags.lookup name, value, rest with
      | none, _, _ => refuse (.undefined name)
      | some kind, some value, rest =>
        match readValue name value kind with
        | .ok v => parseFrom flags ((name, v) :: given) rest
        | .error e => refuse e
      | some .switch, none, rest => parseFrom flags ((name, .switch true) :: given) rest
      | some _, none, [] => refuse (.missing name)
      | some kind, none, value :: rest =>
        match readValue name value kind with
        | .ok v => parseFrom flags ((name, v) :: given) rest
        | .error e => refuse e

/-- Reads the flags of a command line. -/
def parseFlags (flags : Flags) (arguments : List String) : ParsedFlags :=
  parseFrom flags [] arguments

end SmaliTrace.CommandLine
