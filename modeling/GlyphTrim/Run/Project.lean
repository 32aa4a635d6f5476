import GlyphTrim.Font.Face
import GlyphTrim.Glyph.Pruned
import GlyphTrim.Run.Fault
import GlyphTrim.Scan.Report
import GlyphTrim.Scan.Walk

/-!
# Projects

A project is a root with a configuration. It is analyzed before anything is written: its source
files are scanned, the stylesheet is read and indexed, and what stays is planned.
-/

namespace GlyphTrim

/-- All that is known before anything is written. -/
structure Analysis where
  scan : ScanReport
  index : Glyph.Index
  retained : Glyph.Retained
  /-- The pruned stylesheet. -/
  cssText : String
  plan : Glyph.Plan
  /-- What is wrong with the font. -/
  fontWarnings : List String

/-- How many warnings there are. -/
def Analysis.warningCount (a : Analysis) : Nat :=
  a.scan.gaps.length + a.scan.skipped.length + a.scan.walkWarnings.length +
    a.plan.warnings.length + a.fontWarnings.length

/-- A root with a configuration. -/
structure Project where
  root : Path
  config : Config

namespace Project

/-- The project with a root, whose configuration is where it belongs or where it is named. -/
def load (disk : Disk) (root : Path) (named : Option Path) : Except RunError Project :=
  match Config.load disk root named with
  | .ok config => .ok ⟨root, config⟩
  | .error e => .error (.config e)

/-- The stylesheet of the project. -/
def cssPath (p : Project) : Path := p.config.cssPath p.root

/-- The font of the project. -/
def fontPath (p : Project) : Path := p.config.fontPath p.root

/-- What the source files of the project use. The classes that the configuration keeps are in
use. -/
def scan (p : Project) (disk : Disk) : ScanReport :=
  let found :=
    Scan.findSources disk (p.config.entryDirs p.root) (p.config.excludedPaths p.root)
  let report := ScanReport.ofFiles disk found.files
  { report with
    files := found.files
    used := report.used.union (NameSet.ofList p.config.excludeClasses)
    walkWarnings := found.warnings }

/-- The warning that a font has no glyph for a class. -/
def missingGlyphWarning (g : String × Char) : String :=
  s!"font has no glyph for `{g.1}` ({Glyph.formatCodepoint g.2}); the subset will not contain it"

/-- What is wrong with the font of a plan. An empty plan needs no font. -/
def fontWarnings (disk : Disk) (plan : Glyph.Plan) : List String :=
  if plan.isEmpty then []
  else
    match disk.read plan.fontPath with
    | .error e => [s!"cannot inspect font {plan.fontPath.text}: {e.message}"]
    | .ok bytes =>
      match Font.missingGlyphs bytes plan.glyphs with
      | .ok missing => missing.map missingGlyphWarning
      | .error e =>
        [s!"cannot inspect font {plan.fontPath.text}: {e.message}; subsetting it anyway"]

/-- The stylesheet of the project, read. -/
def readSheet (p : Project) (disk : Disk) : Except RunError Css.Sheet :=
  match disk.readText p.cssPath with
  | .error e => .error (.unreadable p.cssPath e)
  | .ok text =>
    match Css.Sheet.parse text with
    | .error e => .error (.stylesheet p.cssPath e)
    | .ok sheet => .ok sheet

/-- The analysis of the project with a scan and a stylesheet. -/
def analysisOf (p : Project) (disk : Disk) (scan : ScanReport) (sheet : Css.Sheet) : Analysis :=
  let index := Glyph.buildIndex sheet scan.used
  let retained := Glyph.reconcile scan.used index
  let plan := Glyph.Plan.ofRetained retained p.fontPath p.cssPath
  { scan, index, retained, plan
    cssText := Glyph.prunedCss sheet retained p.config.iconPrefix
    fontWarnings := fontWarnings disk plan }

/-- The analysis of the project. -/
def analyze (p : Project) (disk : Disk) : Except RunError Analysis :=
  match p.readSheet disk with
  | .error e => .error e
  | .ok sheet => .ok (p.analysisOf disk (p.scan disk) sheet)

end Project

end GlyphTrim
