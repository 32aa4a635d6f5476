import GlyphTrim.Report.Warnings
import GlyphTrim.Run.Command

/-!
# The result of a command

What a command tells when it is done: how many files it scanned and how many glyphs stay, and
where it wrote them; on request also the files, the classes in use and the glyphs that stay.
-/

namespace GlyphTrim.Report

/-- The mark of a command that did what it was asked to. -/
def successMark : String := "\u2713"

/-- The mark of a command that refused to act. -/
def failureMark : String := "\u2718"

/-- A text with blanks behind, so that it has a number of characters. -/
def leftAligned (width : Nat) (text : String) : String :=
  text ++ String.ofList (List.replicate (width - text.length) ' ')

/-- The classes that keep their glyph, with its escape, and with the line that declares it if the
line is asked for. -/
def retainedLines (a : Analysis) (withLines : Bool) : List String :=
  let width := (a.retained.keys.map String.utf8ByteSize).foldl max 0
  a.retained.entries.map fun (c, literal) =>
    let line :=
      match withLines, a.index.find? c with
      | true, some entry => s!"  line {entry.line}"
      | _, _ => ""
    s!"  {leftAligned width c}  {literal}{line}"

/-- The lines with the files, the classes in use and the glyphs that stay. -/
def detailLines (a : Analysis) : List String :=
  ["Scanned (" ++ Text.counted a.scan.files.length "file" "files" ++ "):"] ++
    a.scan.files.map ("  " ++ ·) ++
    [s!"Used classes ({a.scan.used.toList.length}):"] ++
    a.scan.used.toList.map ("  " ++ ·) ++
    [s!"Retained glyphs ({a.retained.entries.length}):"] ++
    retainedLines a true

/-- The files, the classes in use and the glyphs that stay. -/
def details (a : Analysis) : String := unlines (detailLines a)

/-- Why no glyph stays. -/
def nothingKept (a : Analysis) : String :=
  if a.retained.isEmpty then "no icon glyphs in use" else "no valid codepoints retained"

/-- How many files were scanned. -/
def scannedFiles (a : Analysis) : String :=
  "Scanned " ++ Text.counted a.scan.files.length "source file" "source files"

/-- How many glyphs stay. -/
def keptGlyphs (a : Analysis) : String := Text.counted a.plan.glyphs.length "glyph" "glyphs"

/-- The lines at the end of a command. -/
def summaryLines : Summary → List String
  | .purge a .skipped =>
    [s!"{successMark} {scannedFiles a} - {nothingKept a}, nothing written"]
  | .purge a (.written fontPath cssPath) =>
    [s!"{successMark} {scannedFiles a} - kept {keptGlyphs a}",
      s!"  font: {fontPath.text}", s!"  css: {cssPath.text}"]
  | .scan a =>
    if a.plan.isEmpty then [s!"{successMark} {scannedFiles a} - {nothingKept a}"]
    else
      retainedLines a false ++
        [s!"Would write {a.plan.outputDir.text}",
          s!"{successMark} {scannedFiles a} - {keptGlyphs a} would be kept",
          "Run icon-purge purge to write them."]
  | .init path true => [s!"{successMark} Created {path.text}"]
  | .init _ false => [s!"{failureMark} {Config.fileName} already exists"]

/-- The text at the end of a command. -/
def summary (s : Summary) : String := unlines (summaryLines s)

end GlyphTrim.Report
