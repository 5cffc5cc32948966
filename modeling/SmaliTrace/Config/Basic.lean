import SmaliTrace.Regex.Parser
import SmaliTrace.Slice.Options
import SmaliTrace.Slice.Pattern
import SmaliTrace.Text.Octets

/-!
Configurations: the rules of an analysis, its limits, and the classes it treats as library code.
-/
namespace SmaliTrace.Config
open SmaliTrace.Slice (BackwardPattern ForwardPattern Options)
open SmaliTrace.Text (Octets)

/-- A named backward pattern, with expressions for the literal values that are reported. -/
structure BackwardRule where
  name : String := ""
  owner : String := ""
  method : String := ""
  params : String := ""
  param : Int := 0
  trackReturn : Bool := false
  insecure : List String := []
deriving DecidableEq, Repr, Inhabited

/-- The pattern of a backward rule. -/
def BackwardRule.pattern (r : BackwardRule) : BackwardPattern :=
  { owner := r.owner, method := r.method, params := r.params, param := r.param,
    trackReturn := r.trackReturn }

/-- A named forward pattern; exactly one of the type, the method and the literal is given. -/
structure ForwardRule where
  name : String := ""
  objectType : String := ""
  owner : String := ""
  method : String := ""
  params : String := ""
  literal : String := ""
deriving DecidableEq, Repr, Inhabited

/-- The pattern of a forward rule. -/
def ForwardRule.pattern (r : ForwardRule) : ForwardPattern :=
  { objectType := r.objectType, owner := r.owner, method := r.method, params := r.params,
    literal := r.literal }

end SmaliTrace.Config

namespace SmaliTrace
open SmaliTrace.Config

/-- A configuration. Classes whose names start with an excluded text are library code. -/
structure Config where
  excluded : List String
  options : Slice.Options
  backward : List BackwardRule
  forward : List ForwardRule
deriving Repr, Inhabited

end SmaliTrace

namespace SmaliTrace.Config
open SmaliTrace.Text (Octets)

/-- The rules for weak ciphers and digests, and for keys and other inputs that are written in the
program. -/
def defaultRules : List BackwardRule := [
  { name := "cipher-algorithm", owner := "Ljavax/crypto/Cipher;", method := "getInstance",
    params := "Ljava/lang/String;",
    insecure := ["(?i)^(AES|DES|DESede|RC2|RC4|Blowfish)$", "(?i)/ECB/", "(?i)^DES"] },
  { name := "hardcoded-key", owner := "Ljavax/crypto/spec/SecretKeySpec;", method := "<init>",
    params := "[BLjava/lang/String;", insecure := ["."] },
  { name := "static-iv", owner := "Ljavax/crypto/spec/IvParameterSpec;", method := "<init>",
    params := "[B", insecure := ["."] },
  { name := "static-salt", owner := "Ljavax/crypto/spec/PBEKeySpec;", method := "<init>",
    params := "[C[BII", param := 1, insecure := ["."] },
  { name := "weak-digest", owner := "Ljava/security/MessageDigest;", method := "getInstance",
    params := "Ljava/lang/String;", insecure := ["(?i)^(MD2|MD4|MD5|SHA-?1)$"] },
  { name := "static-seed", owner := "Ljava/security/SecureRandom;", method := "setSeed",
    params := "[B", insecure := ["."] }]

/-- The configuration used unless another is given. -/
def default : Config :=
  { excluded := ["Landroid/support/", "Landroidx/", "Lkotlin/", "Lcom/google/android/gms/"]
    options := .default
    backward := defaultRules
    forward := [] }

/-- Why a configuration is refused. -/
inductive Invalid where
  | negativeFuzzy (limit : Int)
  | limitNotPositive
  | unnamedRule
  | duplicateRule (name : String)
  | missingMethod (rule : String)
  | badExpression (rule : String) (flaw : Regex.SyntaxFlaw)
  | notOneSeed (rule : String)
deriving DecidableEq, Repr

/-- The message of a refusal. -/
def Invalid.message : Invalid → String
  | .negativeFuzzy limit => "maxFuzzy must not be negative, got " ++ toString limit
  | .limitNotPositive =>
    "maxIterations, maxCompletedSearches and arraySearchDepth must be positive"
  | .unnamedRule => "rule without a name"
  | .duplicateRule name => "duplicate rule name " ++ Text.quote name
  | .missingMethod rule => "rule " ++ rule ++ ": method is required"
  | .badExpression rule flaw => "rule " ++ rule ++ ": error parsing regexp: " ++ flaw.text
  | .notOneSeed rule =>
    "rule " ++ rule ++ ": exactly one of objectType, method and literal must be set"

/-- A backward rule with its expressions read. -/
structure CheckedRule where
  rule : BackwardRule
  insecure : List Regex
deriving Repr, Inhabited

/-- An expression of the rule matches the value. -/
def CheckedRule.isInsecure (r : CheckedRule) (value : Octets) : Bool :=
  r.insecure.any fun e => e.isIn value.toText

/-- A configuration that is in order, with the expressions read. -/
structure Checked where
  config : Config
  backward : List CheckedRule
deriving Repr, Inhabited

/-- The limits are in order. -/
def checkLimits (o : Slice.Options) : Except Invalid Unit :=
  if o.maxFuzzy < 0 then .error (.negativeFuzzy o.maxFuzzy)
  else if o.maxIterations ≤ 0 || o.maxCompleted ≤ 0 || o.arrayDepth ≤ 0 then
    .error .limitNotPositive
  else .ok ()

/-- The name of a rule is given and new. -/
def checkName (before : List String) (name : String) : Except Invalid Unit :=
  if name = "" then .error .unnamedRule
  else if before.contains name then .error (.duplicateRule name)
  else .ok ()

/-- Checks the backward rules in order, after the rules with the names in `before`. -/
def checkBackward (before : List String) : List BackwardRule → Except Invalid (List CheckedRule)
  | [] => .ok []
  | r :: rest => do
    checkName before r.name
    if r.method = "" then throw (.missingMethod r.name)
    let insecure ← r.insecure.mapM fun e =>
      match Regex.parse e with
      | .ok e => .ok e
      | .error flaw => .error (.badExpression r.name flaw)
    let checked ← checkBackward (r.name :: before) rest
    pure (⟨r, insecure⟩ :: checked)

/-- Checks the forward rules in order, after the rules with the names in `before`. -/
def checkForward (before : List String) : List ForwardRule → Except Invalid Unit
  | [] => .ok ()
  | r :: rest => do
    checkName before r.name
    if ([r.objectType, r.method, r.literal].filter (· ≠ "")).length ≠ 1 then
      throw (.notOneSeed r.name)
    checkForward (r.name :: before) rest

/-- Checks a configuration. -/
def check (c : Config) : Except Invalid Checked := do
  checkLimits c.options
  let backward ← checkBackward [] c.backward
  checkForward (c.backward.map BackwardRule.name) c.forward
  pure ⟨c, backward⟩

end SmaliTrace.Config
