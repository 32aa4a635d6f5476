import GlyphTrim.CommandLine.Program
import GlyphTrim.Disk.Changes

/-!
# The program on a system

Reads the current folder and the root of the project into a disk, lets `CommandLine.perform` act
on it, and makes the changes. No other program is launched from here: a command that needs a
subsetter says so and ends.
-/

namespace GlyphTrim.CommandLine

/-- What stands at an entry of a folder. What cannot be read is left out. -/
partial def readEntry (entry : IO.FS.DirEntry) : IO (Option Entry) := do
  let path := entry.path
  try
    let tree ←
      match (← path.symlinkMetadata).type with
      | .dir => pure (Tree.folder ((← (← path.readDir).toList.mapM readEntry).filterMap id))
      | .symlink => pure (.link ⟨(← IO.FS.realPath path).toString⟩)
      | _ => pure (.file (← IO.FS.readBinFile path))
    return some (.mk entry.fileName tree)
  catch _ => return none

/-- The disk with the folder that a path names, if it names one. The path is taken from the
current folder. -/
def withFolder (disk : Disk) (path : Path) : IO Disk := do
  let folder := (← IO.currentDir) / path.text
  try
    let entries ← (← folder.readDir).toList.mapM readEntry
    let location := Disk.steps (Path.normalize ⟨folder.toString⟩)
    return disk.put location (.folder (entries.filterMap id))
  catch _ => return disk

/-- The disk that a request acts on. -/
def diskFor (request : Request) : IO Disk := do
  let current := Disk.steps ⟨(← IO.currentDir).toString⟩
  let disk ← withFolder ⟨.folder [], current⟩ request.root
  withFolder disk ⟨"."⟩

/-- Makes a change. -/
def makeChange (change : DiskChange) : IO Unit :=
  match change with
  | .folder l => IO.FS.createDirAll ("/" ++ "/".intercalate l)
  | .file l bytes => IO.FS.writeBinFile ("/" ++ "/".intercalate l) bytes

/-- Every launch fails. -/
def launchNothing : Launcher := fun _ _ disk =>
  (.error (.other "launching programs is not supported"), disk)

/-- Does what is asked, and makes the changes. -/
def performOnSystem (request : Request) : IO Output := do
  let disk ← diskFor request
  let (output, now) := perform launchNothing disk request
  (disk.changes now).forM makeChange
  return output

/-- Writes an output. -/
def write (output : Output) : IO UInt32 := do
  (← IO.getStdout).putStr output.stdout
  (← IO.getStderr).putStr output.stderr
  return output.code.toUInt32

end GlyphTrim.CommandLine

open GlyphTrim.CommandLine in
/-- Runs the program on its arguments. -/
def main (arguments : List String) : IO UInt32 := do
  let subsetter ← IO.getEnv subsetterVariable
  let environment (name : String) : Option String :=
    if name = subsetterVariable then subsetter else none
  match read environment arguments with
  | .error output => write output
  | .ok request => write (← performOnSystem request)
