import SmaliTrace.FileTree
import SmaliTrace.Store.Json

/-!
The store of results: the record of every rule, encoded, under its name in a key-value engine.
-/
namespace SmaliTrace.Store
open SmaliTrace.Analysis SmaliTrace.Text

/-- Why an engine refuses something. -/
inductive EngineFault where
  | file (error : FileError)
  | invalid
  | tooSmall
  | notOpen
  | keyRequired
  | keyTooLarge
  | valueTooLarge
  | other (message : String)
deriving DecidableEq, Repr

/-- The wording of a fault. -/
def EngineFault.text : EngineFault → String
  | .file error => error.message
  | .invalid => "invalid database"
  | .tooSmall => "file size too small"
  | .notOpen => "database not open"
  | .keyRequired => "key required"
  | .keyTooLarge => "key too large"
  | .valueTooLarge => "value too large"
  | .other message => message

/-- Why an operation on a store fails. -/
inductive StoreError where
  | opening (path : String) (fault : EngineFault)
  | initializing (path : String) (error : StoreError)
  | engine (fault : EngineFault)
  | encoding (rule : String) (fault : EncodeFault)
  | decoding (message : String)
  | notFound (rule : String)
deriving DecidableEq, Repr

/-- The message of a failed operation. -/
def StoreError.message : StoreError → String
  | .opening path fault => "opening " ++ path ++ ": " ++ fault.text
  | .initializing path error => "initializing " ++ path ++ ": " ++ error.message
  | .engine fault => fault.text
  | .encoding rule fault =>
    "encoding " ++ rule ++ ": json: error calling MarshalJSON for type time.Time: Time.MarshalJSON: " ++ fault.text
  | .decoding message => message
  | .notFound rule => rule ++ ": no stored result"

/-- A key-value engine, as far as it is used: databases in files, of which one can be open, with values under keys in
one bucket. A transaction sees the bucket as it was when it began, with its own changes. An update runs a body in a
transaction and keeps its changes, or drops them; a view only reads. -/
structure Engine where
  World : Type
  Tx : Type
  openFile : String → EStateM EngineFault World Unit
  close : World → World
  update : EStateM StoreError Tx Unit → EStateM StoreError World Unit
  view : World → Except EngineFault Tx
  createBucket : EStateM EngineFault Tx Unit
  put : (key value : Octets) → EStateM EngineFault Tx Unit
  get : Tx → Octets → Option Octets
  keys : Tx → List Octets

/-- Records as bytes. -/
structure Codec where
  encode : Record → Except EncodeFault Octets
  decode : Octets → Except String Record

/-- The record with the time at which it is saved, unless it has a time of its own. -/
def Record.stamped (now : Option Timestamp) (r : Record) : Record :=
  { r with saved := (r.saved.filter fun t => !t.isZero).or now }

namespace Engine

variable (E : Engine) (C : Codec)

/-- Opens the database in a file, which is made if it is not there. -/
def openAt (path : String) : EStateM StoreError E.World Unit := do
  EStateM.adaptExcept (.opening path) (E.openFile path)
  try
    E.update (EStateM.adaptExcept .engine E.createBucket)
  catch e =>
    modify E.close
    throw (.initializing path e)

/-- The bytes of a record. -/
def encode {σ : Type} (r : Record) : EStateM StoreError σ Octets :=
  match C.encode r with
  | .ok data => pure data
  | .error fault => throw (.encoding r.rule fault)

/-- Puts bytes under the name of a rule. -/
def putData (rule : String) (data : Octets) : EStateM StoreError E.Tx Unit :=
  EStateM.adaptExcept .engine (E.put rule data)

/-- Saves a record under the name of its rule. -/
def save (now : Option Timestamp) (r : Record) : EStateM StoreError E.World Unit := do
  let r := r.stamped now
  let data ← encode C r
  E.update (E.putData r.rule data)

/-- Saves the record of a rule of a result, in a transaction. -/
def saveRule (now : Option Timestamp) (p : Program) (rule : RuleResult) : EStateM StoreError E.Tx Unit := do
  let r := { Record.ofResult p rule with saved := now }
  E.putData r.rule (← encode C r)

/-- Saves the records of all rules of an analysis in one transaction. -/
def saveResult (now : Option Timestamp) (r : Result) : EStateM StoreError E.World Unit :=
  E.update (r.rules.forM (E.saveRule C now r.program))

/-- The record that was saved last for a rule. -/
def load (rule : String) (w : E.World) : Except StoreError Record := do
  let tx ← (E.view w).mapError .engine
  match E.get tx rule with
  | none => .error (.notFound rule)
  | some data => (C.decode data).mapError .decoding

/-- The rules with a record, in the order of the engine. -/
def rules (w : E.World) : Except StoreError (List String) := do
  let tx ← (E.view w).mapError .engine
  pure ((E.keys tx).map Octets.toText)

end Engine

end SmaliTrace.Store
