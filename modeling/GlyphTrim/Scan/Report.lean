import GlyphTrim.Disk.Basic
import GlyphTrim.Issue.Finding

/-!
# What a scan finds

A report on source files: the classes that any of them uses, the gaps, and the files that had to
be left out. Reports of two lists of files put together are the report of the list put together.
-/

namespace GlyphTrim

/-- What is known after a scan. -/
structure ScanReport where
  /-- The files, as the walk found them. -/
  files : List String := []
  /-- The classes in use. -/
  used : NameSet := ∅
  gaps : List Gap := []
  skipped : List SkippedFile := []
  /-- What the walk could not reach. -/
  walkWarnings : List String := []

namespace ScanReport

/-- What one file has to say. -/
def ofFile (d : Disk) (file : String) : Except SkipReason FileUsage :=
  match d.readText ⟨file⟩ with
  | .error e => .error (.unreadable e.message)
  | .ok code =>
    match FileUsage.ofText file code with
    | .error e => .error (.parse e)
    | .ok usage => .ok usage

/-- The report with one file more. A file that cannot be read, or is no module, is left out and
changes nothing else. -/
def add (r : ScanReport) (file : String) (found : Except SkipReason FileUsage) : ScanReport :=
  match found with
  | .ok usage => { r with used := NameSet.union r.used usage.classes, gaps := r.gaps ++ usage.gaps }
  | .error reason => { r with skipped := r.skipped ++ [⟨file, reason⟩] }

/-- The report on files, of which each is read once for each time it is listed. -/
def ofFiles (d : Disk) (files : List String) : ScanReport :=
  files.foldl (fun r file => r.add file (ofFile d file)) {}

end ScanReport

end GlyphTrim
