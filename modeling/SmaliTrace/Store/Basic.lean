import SmaliTrace.Store.Engine

/-!
Stores in files: databases, opened, read and written by path.
-/
namespace SmaliTrace.Store
open SmaliTrace.Text (Octets)

/-- A database: the values under the keys of its bucket, if that has been made. A value hides those behind it with the
same key. -/
structure Database where
  bucket : Option (List (Octets × Octets)) := none
deriving DecidableEq, Repr, Inhabited

/-- What a file holds. -/
inductive FileContent where
  | text (s : String)
  | database (d : Database)
deriving DecidableEq, Repr, Inhabited

/-- The text of a file; a database has none. -/
def FileContent.toText : FileContent → String
  | .text s => s
  | .database _ => ""

namespace Database

/-- The longest key, in bytes. -/
def maxKeySize : Nat := 32768

/-- The longest value, in bytes. -/
def maxValueSize : Nat := 2147483646

/-- Makes the bucket, if there is none. -/
def createBucket : EStateM EngineFault Database Unit := fun d => .ok () ⟨some (d.bucket.getD [])⟩

/-- Stores a value under a key. -/
def put (key value : Octets) : EStateM EngineFault Database Unit := fun d =>
  if key.bytes = [] then .error .keyRequired d
  else if maxKeySize < key.bytes.length then .error .keyTooLarge d
  else if maxValueSize < value.bytes.length then .error .valueTooLarge d
  else
    match d.bucket with
    | none => .error (.other "no bucket") d
    | some entries => .ok () ⟨some ((key, value) :: entries.filter fun e => e.1 ≠ key)⟩

/-- The value under a key. -/
def get (d : Database) (key : Octets) : Option Octets :=
  ((d.bucket.getD []).find? fun e => e.1 = key).map Prod.snd

/-- The keys, in the order of their bytes. -/
def keys (d : Database) : List Octets :=
  ((d.bucket.getD []).map Prod.fst).eraseDups.mergeSort fun a b => decide (a.bytes ≤ b.bytes)

end Database

end SmaliTrace.Store

namespace SmaliTrace
open SmaliTrace.Store SmaliTrace.Analysis

/-- A working directory with its files. -/
abbrev Workspace := FileTree FileContent

/-- A working directory in which at most one database is open, named by its place. -/
structure Store where
  files : Workspace
  current : Option (List String) := none
deriving Inhabited

namespace Store

/-- The size of a page of a database file, in bytes. -/
def pageSize : Nat := 4096

/-- The database that a file holds. An empty file holds an empty one; other text is no database, and
is told to be too short if it has one page but not two. -/
def databaseOf : FileContent → Except EngineFault Database
  | .database d => .ok d
  | .text s =>
    let size := s.utf8ByteSize
    if size = 0 then .ok {}
    else if pageSize ≤ size && size < 2 * pageSize then .error .tooSmall
    else .error .invalid

/-- Closes the open database. -/
def close (s : Store) : Store := { s with current := none }

/-- Opens the database at a path in place of the one that is open; it is made if there is no file. -/
def openFile (path : String) : EStateM EngineFault Store Unit := fun s =>
  match s.files.writable path with
  | .error e => .error (.file e) s
  | .ok (place, content) =>
    match databaseOf (content.getD (.text "")) with
    | .error fault => .error fault s
    | .ok d => .ok () ⟨s.files.put place (.database d), some place⟩

/-- The place of the open database, and the database. -/
def database (s : Store) : Except EngineFault (List String × Database) :=
  match s.current with
  | none => .error .notOpen
  | some place =>
    match s.files.entry? place with
    | some (.file (.database d)) => .ok (place, d)
    | _ => .error .notOpen

/-- Changes the open database, unless the change fails. -/
def update (change : EStateM StoreError Database Unit) : EStateM StoreError Store Unit := fun s =>
  match s.database with
  | .error fault => .error (.engine fault) s
  | .ok (place, d) =>
    match change.run d with
    | .error e _ => .error e s
    | .ok _ d => .ok () { s with files := s.files.put place (.database d) }

/-- The engine that keeps databases in the files of a working directory. -/
def engine : Engine where
  World := Store
  Tx := Database
  openFile := openFile
  close := close
  update := update
  view s := s.database.map Prod.snd
  createBucket := Database.createBucket
  put := Database.put
  get := Database.get
  keys := Database.keys

/-- Records as JSON texts. -/
def codec : Codec := ⟨Record.encode, Record.decode⟩

/-- The store after an action that succeeds. -/
def after (s : Store) (action : EStateM StoreError Store Unit) : Except StoreError Store :=
  match action.run s with
  | .ok _ s => .ok s
  | .error e _ => .error e

/-- Opens the store in a file. -/
def openAt (s : Store) (path : String) : Except StoreError Store := s.after (engine.openAt path)

/-- Saves a record under the name of its rule. -/
def save (s : Store) (r : Record) : Except StoreError Store := s.after (engine.save codec none r)

/-- Saves the records of all rules of an analysis, or none of them. -/
def saveResult (s : Store) (r : Result) : Except StoreError Store := s.after (engine.saveResult codec none r)

/-- The record that was saved last for a rule. -/
def load (s : Store) (rule : String) : Except StoreError Record := engine.load codec rule s

/-- The rules with a record, in order. -/
def rules (s : Store) : Except StoreError (List String) := engine.rules s

end Store

end SmaliTrace
