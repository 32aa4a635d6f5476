import GlyphTrim.Config.Load
import GlyphTrim.Css.Sheet
import GlyphTrim.Run.Subset

/-!
# What ends a run

The causes for which a run ends without a result. What is wrong with single source files is not
among them.
-/

namespace GlyphTrim

/-- Why a run ended. -/
inductive RunError
  | config (e : ConfigError)
  | subset (e : SubsetError)
  | stylesheet (path : Path) (e : Css.SyntaxError)
  | unreadable (path : Path) (e : DiskFault)
  | unwritable (path : Path) (e : DiskFault)

/-- The error in words, with its causes. -/
def RunError.message : RunError → String
  | config e => e.chain
  | subset e => e.message
  | stylesheet path e => s!"Failed to parse stylesheet {path.text}: {e.message}"
  | unreadable path e => s!"Failed to read stylesheet {path.text}: {e.message}"
  | unwritable path e => s!"Failed to write {path.text}: {e.message}"

end GlyphTrim
