import SmaliTrace.Text.Cut

/-!
Trees of files below a working directory: finding, reading and writing files by path, and walking
directories.
-/
namespace SmaliTrace

/-- Why a path cannot be used. -/
inductive FileFault where
  | missing
  | notDirectory
  | isDirectory
  | nameTooLong
  | invalid
deriving DecidableEq, Repr

/-- The wording of a fault. -/
def FileFault.text : FileFault → String
  | .missing => "no such file or directory"
  | .notDirectory => "not a directory"
  | .isDirectory => "is a directory"
  | .nameTooLong => "file name too long"
  | .invalid => "invalid argument"

/-- The longest name in a directory, in bytes. -/
def maxNameSize : Nat := 255

/-- The longest path, in bytes. -/
def maxPathSize : Nat := 4095

/-- A failed operation on a path. -/
structure FileError where
  operation : String
  path : String
  fault : FileFault
deriving DecidableEq, Repr

/-- The message of a failed operation. -/
def FileError.message (e : FileError) : String := e.operation ++ " " ++ e.path ++ ": " ++ e.fault.text

/-- The parts of a path between its slashes. -/
def pathParts (path : String) : List String :=
  ((Text.pieces ['/'] path.toList).map String.ofList).filter (· ≠ "")

/-- The parts of a path that can be followed from the working directory. -/
def checkPath (path : String) : Except FileFault (List String) :=
  if path.toList.contains (Char.ofNat 0) then .error .invalid
  else if maxPathSize < path.utf8ByteSize then .error .nameTooLong
  else if path = "" || Text.startsWith "/" path.toList then .error .missing
  else .ok (pathParts path)

/-- The path without empty and dot parts, and with every step up taken back where it can be. -/
def cleanParts : (done : List String) → List String → List String
  | done, [] => done.reverse
  | done, part :: rest =>
    if part = "." then cleanParts done rest
    else if part = ".." then
      match done with
      | [] => cleanParts [".."] rest
      | last :: before =>
        if last = ".." then cleanParts (".." :: done) rest else cleanParts before rest
    else cleanParts (part :: done) rest

/-- A path below a directory, cleaned. -/
def joinPath (directory : String) (parts : List String) : String :=
  let rooted := Text.startsWith "/" directory.toList
  let clean := cleanParts [] (pathParts directory ++ parts)
  if rooted then "/" ++ Text.join "/" (clean.dropWhile (· = "..")) else Text.join "/" clean

/-- Files and empty directories, each under the parts of its path. -/
structure FileTree (α : Type) where
  files : List (List String × α) := []
  directories : List (List String) := []
deriving Inhabited

/-- What stands at a path. -/
inductive Entry (α : Type) where
  | file (content : α)
  | directory
deriving Inhabited

namespace FileTree

variable {α : Type}

/-- The directory is named, or something lies below it. -/
def hasDirectory (t : FileTree α) (parts : List String) : Bool :=
  parts.isEmpty || t.directories.any parts.isPrefixOf ||
    t.files.any fun (path, _) => parts.isPrefixOf path && parts ≠ path

/-- What stands at the parts of a path. -/
def entry? (t : FileTree α) (parts : List String) : Option (Entry α) :=
  match t.files.find? fun (path, _) => path = parts with
  | some (_, content) => some (.file content)
  | none => if t.hasDirectory parts then some .directory else none

/-- Adds a file, or replaces its content. -/
def put (t : FileTree α) (parts : List String) (content : α) : FileTree α :=
  { t with files := (t.files.filter fun (path, _) => path ≠ parts) ++ [(parts, content)] }

/-- Adds a directory. -/
def addDirectory (t : FileTree α) (parts : List String) : FileTree α :=
  { t with directories := t.directories ++ [parts] }

/-- Follows the parts of a path down from a directory. -/
def descend (t : FileTree α) : (place : List String) → List String → Except FileFault (List String)
  | place, [] => .ok place
  | place, part :: rest =>
    match t.entry? place with
    | none => .error .missing
    | some (.file _) => .error .notDirectory
    | some .directory =>
      if part = "." then t.descend place rest
      else if part = ".." then
        if place.isEmpty then .error .missing else t.descend place.dropLast rest
      else if maxNameSize < part.utf8ByteSize then .error .nameTooLong
      else t.descend (place ++ [part]) rest

/-- The parts that a path leads to, and what stands there, if anything. -/
def locate (t : FileTree α) (path : String) : Except FileFault (List String × Option (Entry α)) := do
  let place ← t.descend [] (← checkPath path)
  match t.entry? place with
  | some (.file content) =>
    if Text.endsWith "/" path.toList then .error .notDirectory
    else .ok (place, some (.file content))
  | entry => .ok (place, entry)

/-- What stands at a path; `operation` names the attempt in the error. -/
def find (t : FileTree α) (operation path : String) : Except FileError (List String × Entry α) :=
  match t.locate path with
  | .error fault => .error ⟨operation, path, fault⟩
  | .ok (_, none) => .error ⟨operation, path, .missing⟩
  | .ok (place, some entry) => .ok (place, entry)

/-- The content of a file. -/
def read (t : FileTree α) (path : String) : Except FileError α :=
  match t.find "open" path with
  | .error e => .error e
  | .ok (_, .directory) => .error ⟨"read", path, .isDirectory⟩
  | .ok (_, .file content) => .ok content

/-- Where a file can be written: an existing file, or a new one in an existing directory. A slash at
the end of the path asks for a directory, whatever stands there. -/
def writable (t : FileTree α) (path : String) : Except FileError (List String × Option α) :=
  let sought : Except FileFault (List String × Option (Entry α)) := do
    if Text.endsWith "/" path.toList then
      let _ ← t.descend [] ((← checkPath path).dropLast ++ ["."])
      .error .isDirectory
    else t.locate path
  match sought with
  | .error fault => .error ⟨"open", path, fault⟩
  | .ok (_, some .directory) => .error ⟨"open", path, .isDirectory⟩
  | .ok (place, some (.file content)) => .ok (place, some content)
  | .ok (place, none) => .ok (place, none)

/-- Writes a file. -/
def write (t : FileTree α) (path : String) (content : α) : Except FileError (FileTree α) :=
  (t.writable path).map fun (place, _) => t.put place content

/-- The paths of the files at or below a path, given as they are reached from it. -/
def walk (t : FileTree α) (path : String) : Except FileError (List String) :=
  match t.find "lstat" path with
  | .error e => .error e
  | .ok (_, .file _) => .ok [path]
  | .ok (place, .directory) =>
    .ok (t.files.filterMap fun (file, _) =>
      (place.isPrefixOf? file).map fun below => joinPath path below)

end FileTree

end SmaliTrace
