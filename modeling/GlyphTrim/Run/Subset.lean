import GlyphTrim.Disk.Basic
import GlyphTrim.Glyph.Plan
import GlyphTrim.Text.Blank

/-!
# Subsetters

A subsetter makes a font smaller: it writes a font with the requested characters and says where.
It acts on a *bench*, the disk and a state of its own. `Subsetter.ofProgram` is the subsetter that
a program on the system makes; how programs are launched is left open.
-/

namespace GlyphTrim

/-- How a program ended. -/
structure ProgramEnd where
  /-- The number that it returned; zero means success. -/
  code : Nat
  /-- What it wrote as an error. -/
  stderr : ByteArray

/-- Why there is no smaller font. -/
inductive SubsetError
  | spawn (command : String) (cause : DiskFault)
  | failed (command : String) (code : Nat) (stderr : String)
  | outputDir (path : Path) (cause : DiskFault)
  deriving Repr, DecidableEq

/-- The error in words, with its cause. -/
def SubsetError.message : SubsetError → String
  | spawn command cause => s!"failed to launch font subsetter `{command}`: {cause.message}"
  | failed command code stderr =>
    s!"font subsetter `{command}` exited with exit status: {code}: {stderr}"
  | outputDir path cause =>
    s!"failed to prepare output directory {path.text}: {cause.message}"

/-- What a run acts on: the disk, and what the subsetter keeps for itself. -/
structure Bench (σ : Type) where
  disk : Disk
  tool : σ

/-- Makes a smaller font for a request, and returns its path. -/
abbrev Subsetter (σ : Type) := Glyph.SubsetRequest → Bench σ → Except SubsetError Path × Bench σ

/-- Runs a program with arguments, if it can be launched. -/
abbrev Launcher := String → List String → Disk → Except DiskFault ProgramEnd × Disk

namespace Subsetter

/-- The arguments for a request. -/
def arguments (r : Glyph.SubsetRequest) : List String :=
  [r.fontPath.text, "--unicodes=" ++ r.ranges, "--no-hinting",
    "--output-file=" ++ r.outputFontPath.text]

/-- The subsetter that a program makes. The program succeeds if it ends with zero; the font that
it should have written is not looked at. -/
def ofProgram (launch : Launcher) (program : String) : Subsetter Unit := fun r bench =>
  match launch program (arguments r) bench.disk with
  | (.error e, disk) => (.error (.spawn program e), { bench with disk })
  | (.ok ended, disk) =>
    if ended.code = 0 then (.ok r.outputFontPath, { bench with disk })
    else
      let stderr := Text.trim (Text.decodeLossy ended.stderr)
      (.error (.failed program ended.code stderr), { bench with disk })

end Subsetter

/-- The program that makes fonts smaller, unless another one is named. -/
def defaultSubsetter : String := "pyftsubset"

end GlyphTrim
