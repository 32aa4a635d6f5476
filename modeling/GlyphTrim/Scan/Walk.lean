import GlyphTrim.Disk.Basic
import GlyphTrim.Text.Ascii

/-!
# Looking for source files

Source files are looked for below entries, in the order of the entries; a folder is gone through
in the order of its names. An excluded path hides what is at it and below it. Links below an entry
are not followed, but an entry may be a link to a folder, and then the folder's content is gone
through under the entry's own path. A file that is found twice counts once, where it is first
found.
-/

namespace GlyphTrim.Scan

/-- Whether a path has the extension of a file with elements. -/
def isSourcePath (p : Path) : Bool :=
  match p.extension? with
  | some e => Text.sameIgnoringCase e "jsx" || Text.sameIgnoringCase e "tsx"
  | none => false

/-- What was found under each name of a folder, in the order of the names. -/
def inOrder {α : Type} (found : List (String × List α)) : List α :=
  (found.mergeSort fun a b => decide (a.1 ≤ b.1)).flatMap (·.2)

mutual

/-- The source files in a tree at a path, without what is excluded. -/
def sources (excluded : Path → Bool) (path : Path) : Tree → List Path
  | .file _ => if isSourcePath path && !excluded path then [path] else []
  | .link _ => []
  | .folder entries =>
    if excluded path then [] else inOrder (sourcesByName excluded path entries)

/-- The source files in each entry of a folder at a path. -/
def sourcesByName (excluded : Path → Bool) (dir : Path) : List Entry → List (String × List Path)
  | [] => []
  | .mk name tree :: rest =>
    (name, sources excluded (dir.join ⟨name⟩) tree) :: sourcesByName excluded dir rest

end

/-- The source files of an entry, or why there is nothing at it. An entry that is a link to a
folder stands for the folder, and is not excluded itself. -/
def entrySources (d : Disk) (excluded : Path → Bool) (entry : Path) :
    Except DiskFault (List Path) :=
  match d.find false entry with
  | .error e => .error e
  | .ok (.link _) =>
    match d.find true entry with
    | .error e => .error e
    | .ok (.folder entries) => .ok (inOrder (sourcesByName excluded entry entries))
    | .ok _ => .ok []
  | .ok tree => .ok (sources excluded entry tree)

/-- The files that were found, and the entries where nothing could be. -/
structure Found where
  files : List String := []
  warnings : List String := []
  deriving Repr, DecidableEq

namespace Found

/-- One file more, unless it is there already. -/
def add (f : Found) (path : Path) : Found :=
  if f.files.contains path.text then f else { f with files := f.files ++ [path.text] }

/-- The warning that an entry is not there. -/
def warning (entry : Path) (e : DiskFault) : String :=
  s!"cannot access path: IO error for operation on {entry.text}: {e.message}"

/-- What was found with one entry more. -/
def addEntry (d : Disk) (excluded : Path → Bool) (f : Found) (entry : Path) : Found :=
  match entrySources d excluded entry with
  | .error e => { f with warnings := f.warnings ++ [warning entry e] }
  | .ok paths => paths.foldl add f

end Found

/-- Looks for source files below entries, without excluded paths. Paths are compared in normal
form. -/
def findSources (d : Disk) (entries excluded : List Path) : Found :=
  let excluded := excluded.map Path.normalize
  (entries.map Path.normalize).foldl (Found.addEntry d fun p => excluded.contains p) {}

end GlyphTrim.Scan
