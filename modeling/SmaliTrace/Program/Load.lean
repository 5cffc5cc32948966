import SmaliTrace.ClassFile.Parser
import SmaliTrace.FileTree
import SmaliTrace.Program.Basic

/-!
Loading programs from class files.
-/
namespace SmaliTrace.Program
open SmaliTrace.ClassFile

/-- Why a program is not loaded. -/
inductive LoadError where
  | walking (path : String) (error : FileError)
  | unopened (error : FileError)
  | unread (path : String) (error : FileError)
  | refused (path : String) (error : ParseError)
  | canceled
deriving DecidableEq, Repr

/-- The message of a program that is not loaded. -/
def LoadError.message : LoadError → String
  | .walking path error => "walking " ++ path ++ ": " ++ error.message
  | .unopened error => error.message
  | .unread path error => path ++ ": " ++ error.message
  | .refused path error => path ++ ": " ++ error.message
  | .canceled => "context canceled"

/-- A class file by its name. -/
def isClassFile (path : String) : Bool := Text.endsWith ".smali" path.toList

/-- The class files at or below a path. -/
def classFilesBelow {α : Type} (t : FileTree α) (path : String) : Except FileError (List String) :=
  (t.walk path).map fun paths => paths.filter isClassFile

/-- Paths in the order of their bytes. -/
def sortPaths (paths : List String) : List String := paths.mergeSort fun a b => decide (a ≤ b)

/-- Reads one class file. -/
def loadClass {α : Type} (t : FileTree α) (text : α → String) (path : String) :
    Except LoadError ClassDecl :=
  match t.find "open" path with
  | .error e => .error (.unopened e)
  | .ok (_, .directory) => .error (.unread path ⟨"read", path, .isDirectory⟩)
  | .ok (_, .file content) =>
    match ClassFile.parse path (text content) with
    | .ok c => .ok c
    | .error e => .error (.refused path e)

/-- Loads the class files at the paths. -/
def loadFiles {α : Type} (t : FileTree α) (text : α → String) (canceled : Bool)
    (paths : List String) : Logged LoadError Program := do
  let classes ← (paths.mapM (loadClass t text) : Except LoadError (List ClassDecl))
  if canceled then throw .canceled
  Logged.info ("Loaded " ++ toString classes.length ++ " classes")
  let (p, log) := Program.ofClasses classes
  Logged.sayAll log
  pure p

/-- Loads every class file at or below the path. -/
def loadDirectory {α : Type} (t : FileTree α) (text : α → String) (canceled : Bool)
    (path : String) : Logged LoadError Program :=
  match classFilesBelow t path with
  | .error e => throw (.walking path e)
  | .ok paths => loadFiles t text canceled (sortPaths paths)

end SmaliTrace.Program
