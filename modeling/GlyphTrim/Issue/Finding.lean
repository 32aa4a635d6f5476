import GlyphTrim.ClassName.Usage

/-!
# Findings

What a run has to say about the files it read: a gap in a file, or a file that it had to leave
out. Neither ends the run.
-/

namespace GlyphTrim

/-- How grave a finding is. -/
inductive Severity
  | error
  | warning
  deriving Repr, DecidableEq

/-- The word for it. -/
def Severity.text : Severity → String
  | error => "error"
  | warning => "warning"

/-- Why a file was left out. -/
inductive SkipReason
  /-- It could not be read, for a reason in words. -/
  | unreadable (cause : String)
  /-- It is no module. -/
  | parse (error : ParseError)
  deriving Repr, DecidableEq

/-- A file that was left out. -/
structure SkippedFile where
  file : String
  reason : SkipReason
  deriving Repr, DecidableEq

/-- What a report says about a file that was left out. -/
def SkippedFile.message (s : SkippedFile) : String :=
  match s.reason with
  | .unreadable cause => s!"skipped {s.file}: cannot read file ({cause})"
  | .parse e => s!"skipped {s.file}: parse error at {e.line}:{e.col}: {e.message}"

/-- A gap is no error: the run goes on without its classes. -/
def Gap.severity (_ : Gap) : Severity := .warning

/-- A file that is left out is no error: the run goes on without it. -/
def SkippedFile.severity (_ : SkippedFile) : Severity := .warning

end GlyphTrim
