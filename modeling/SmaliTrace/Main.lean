import SmaliTrace.CommandLine.Analyze
import SmaliTrace.CommandLine.BlockDump
import SmaliTrace.Store.Archive

/-!
The program: runs a command on the files below the working directory. With `cfgdump` as the first
argument the block graphs of methods are printed; otherwise class files are analyzed.
-/
namespace SmaliTrace.Main
open SmaliTrace.Store SmaliTrace.CommandLine

/-- What the bytes of a file hold. -/
def contentOf (bytes : ByteArray) : FileContent :=
  let text := (Text.Octets.mk bytes.toList).toText
  match Archive.read? text with
  | some d => .database d
  | none => .text text

/-- The bytes of a file with the content. -/
def textOf : FileContent → String
  | .text s => s
  | .database d => Archive.write d

/-- Adds a directory entry, and all below it, to the files. -/
partial def gather (place : List String) (files : Workspace) (entry : IO.FS.DirEntry) :
    IO Workspace := do
  let place := place ++ [entry.fileName]
  if ← entry.path.isDir then
    (← entry.path.readDir).foldlM (gather place) (files.addDirectory place)
  else
    pure (files.put place (contentOf (← IO.FS.readBinFile entry.path)))

/-- Writes the files that changed. -/
def writeChanges (before after : Workspace) : IO Unit :=
  after.files.forM fun (place, content) => do
    let kept :=
      match before.entry? place with
      | some (.file old) => old = content
      | _ => false
    if !kept then IO.FS.writeFile (Text.join "/" place) (textOf content)

/-- Prints a log entry. -/
def logLine (e : LogEntry) : IO Unit := IO.eprintln (e.level.name ++ ": " ++ e.message)

/-- How the commands are used. -/
def usage : String :=
  "Usage: dexslice [flags] <smali dir or file>...\n" ++
    "       dexslice cfgdump -class <descriptor> [-method name] [-params desc] <smali dir>\n"

end SmaliTrace.Main

open SmaliTrace in
/-- Runs a command line. -/
def main (arguments : List String) : IO UInt32 := do
  let entries ← (← IO.currentDir).readDir
  let files ← entries.foldlM (Main.gather []) ({} : Workspace)
  let outcome :=
    match arguments with
    | "cfgdump" :: rest => CommandLine.BlockDump.run files rest
    | arguments => CommandLine.Analyze.run files arguments
  outcome.log.forM Main.logLine
  if outcome.help then IO.print Main.usage
  IO.print outcome.output
  Main.writeChanges files outcome.files
  pure outcome.exit.toUInt32
