import GlyphTrim.Run.Fault

/-!
# Writing the result

What is planned is written in an order that leaves no stylesheet without its font: first the
folder, then the font, then the stylesheet. With no glyph in the plan nothing happens at all.
-/

namespace GlyphTrim

/-- What was written. -/
inductive EmitOutcome
  /-- Nothing, since no glyph stays. -/
  | skipped
  | written (fontPath cssPath : Path)
  deriving Repr, DecidableEq

/-- Writes the pruned stylesheet, after the font. -/
def writeSheet {σ : Type} (plan : Glyph.Plan) (cssText : String) (fontPath : Path)
    (bench : Bench σ) : Except RunError EmitOutcome × Bench σ :=
  match bench.disk.write plan.cssPath (Text.encode cssText) with
  | (.error e, disk) => (.error (.unwritable plan.cssPath e), { bench with disk })
  | (.ok (), disk) => (.ok (.written fontPath plan.cssPath), { bench with disk })

/-- Makes the font smaller, then writes the pruned stylesheet beside it. -/
def emit {σ : Type} (subset : Subsetter σ) (plan : Glyph.Plan) (cssText : String)
    (bench : Bench σ) : Except RunError EmitOutcome × Bench σ :=
  if plan.isEmpty then (.ok .skipped, bench)
  else
    match bench.disk.makeFolders plan.outputDir with
    | (.error e, disk) => (.error (.subset (.outputDir plan.outputDir e)), { bench with disk })
    | (.ok (), disk) =>
      match subset plan.request { bench with disk } with
      | (.error e, bench) => (.error (.subset e), bench)
      | (.ok fontPath, bench) => writeSheet plan cssText fontPath bench

end GlyphTrim
