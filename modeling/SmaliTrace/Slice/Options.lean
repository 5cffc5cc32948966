import Std.Data.HashMap

/-!
Limits of a search, and the library methods whose arguments it treats specially.
-/
namespace SmaliTrace.Slice

/-- The data copied by a library method flows from one argument to another. -/
structure Redirect where
  src : Int
  dst : Int
deriving DecidableEq, Repr, Inhabited

/-- Tables from method signatures, in the order the entries were added. -/
abbrev SignatureTable (α : Type) := List (String × α)

/-- The entry of a signature. -/
def SignatureTable.get? {α : Type} (t : SignatureTable α) (signature : String) : Option α :=
  (t.find? fun (s, _) => s = signature).map (·.2)

/-- Adds or replaces the entry of a signature. -/
def SignatureTable.put {α : Type} (t : SignatureTable α) (signature : String) (a : α) :
    SignatureTable α :=
  match t with
  | [] => [(signature, a)]
  | (s, b) :: rest =>
    if s = signature then (s, a) :: rest else (s, b) :: SignatureTable.put rest signature a

/-- The bounds of a search: the fuzzy ceiling, the caps on finished register searches and on work
items, and the number of blocks an array walk may enter; whether forward slices go on at callers; the
arguments that carry no data, and the copies. -/
structure Options where
  maxFuzzy : Int
  maxCompleted : Int
  maxIterations : Int
  arrayDepth : Int
  trackForwardReturns : Bool
  whitelist : SignatureTable (List Int)
  redirects : SignatureTable Redirect
deriving Repr, Inhabited

/-- Arguments of well-known library methods that carry no data, such as charsets and flags. -/
def defaultWhitelist : SignatureTable (List Int) := [
  ("Ljava/lang/String;->getBytes(Ljava/lang/String;)", [0]),
  ("Ljava/lang/String;->getBytes(Ljava/nio/charset/Charset;)", [0]),
  ("Ljava/lang/String;-><init>([BLjava/lang/String;)", [1]),
  ("Ljava/lang/String;-><init>([BLjava/nio/charset/Charset;)", [1]),
  ("Ljavax/crypto/spec/SecretKeySpec;-><init>([BLjava/lang/String;)", [1]),
  ("Ljavax/crypto/spec/SecretKeySpec;-><init>([BIILjava/lang/String;)", [1, 2, 3]),
  ("Landroid/util/Base64;->decode(Ljava/lang/String;I)", [1]),
  ("Landroid/util/Base64;->decode([BI)", [1]),
  ("Landroid/util/Base64;->encode([BI)", [1]),
  ("Landroid/util/Base64;->encodeToString([BI)", [1]),
  ("Ljava/lang/String;->substring(II)", [0, 1]),
  ("Ljava/util/Arrays;->copyOf([BI)", [1]),
  ("Ljava/util/Arrays;->copyOfRange([BII)", [1, 2])]

/-- The copy of array elements. -/
def defaultRedirects : SignatureTable Redirect := [
  ("Ljava/lang/System;->arraycopy(Ljava/lang/Object;ILjava/lang/Object;II)", ⟨0, 2⟩)]

namespace Options

/-- The limits used unless others are given. -/
def default : Options :=
  { maxFuzzy := 5
    maxCompleted := 20000
    maxIterations := 200000
    arrayDepth := 64
    trackForwardReturns := true
    whitelist := defaultWhitelist
    redirects := defaultRedirects }

/-- The argument of the library method carries no data. -/
def isWhitelisted (o : Options) (signature : String) (index : Int) : Bool :=
  ((o.whitelist.get? signature).getD []).contains index

end Options

end SmaliTrace.Slice
