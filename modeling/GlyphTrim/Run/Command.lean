import GlyphTrim.Run.Emit
import GlyphTrim.Run.Project

/-!
# Commands

The three things that can be done with a project: write the smaller font and stylesheet, report
what would be written, and make a configuration.
-/

namespace GlyphTrim

/-- How a command ended. -/
inductive ExitStatus
  /-- It did what it was asked to. -/
  | success
  /-- It ran, and refused to act. -/
  | failure
  /-- It could not run to its end. -/
  | error
  deriving Repr, DecidableEq

/-- The number that a program returns. -/
def ExitStatus.code : ExitStatus → Nat
  | success => 0
  | failure => 1
  | error => 2

/-- What a command has to say at its end. -/
inductive Summary
  | purge (analysis : Analysis) (outcome : EmitOutcome)
  | scan (analysis : Analysis)
  /-- Where the configuration is, and whether it was made now. -/
  | init (path : Path) (created : Bool)

namespace Summary

/-- The analysis behind a summary. -/
def analysis? : Summary → Option Analysis
  | purge a _ | scan a => some a
  | init _ _ => none

/-- How a command with a summary ended. -/
def status : Summary → ExitStatus
  | purge .. | scan _ => .success
  | init _ created => if created then .success else .failure

/-- How many warnings the command gave. -/
def warningCount (s : Summary) : Nat := (s.analysis?.map Analysis.warningCount).getD 0

end Summary

namespace Project

/-- Analyzes a project and writes nothing. -/
def runScan (disk : Disk) (root : Path) (named : Option Path) : Except RunError Summary := do
  let p ← Project.load disk root named
  return .scan (← p.analyze disk)

/-- Analyzes a project and writes what stays. -/
def runPurge {σ : Type} (subset : Subsetter σ) (root : Path) (named : Option Path)
    (bench : Bench σ) : Except RunError Summary × Bench σ :=
  match (do (← Project.load bench.disk root named).analyze bench.disk) with
  | .error e => (.error e, bench)
  | .ok analysis =>
    match emit subset analysis.plan analysis.cssText bench with
    | (.error e, bench) => (.error e, bench)
    | (.ok outcome, bench) => (.ok (.purge analysis outcome), bench)

/-- Makes a configuration in a directory, unless something of its name is there. -/
def runInit (disk : Disk) (root : Path) : Except RunError Summary × Disk :=
  let path := root.join ⟨Config.fileName⟩
  if disk.holds path then (.ok (.init path false), disk)
  else
    match disk.write path (Text.encode Config.template) with
    | (.error e, disk) => (.error (.unwritable path e), disk)
    | (.ok (), disk) => (.ok (.init path true), disk)

end Project

end GlyphTrim
