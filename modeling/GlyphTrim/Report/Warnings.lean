import GlyphTrim.Run.Project
import GlyphTrim.Text.Width

/-!
# The warnings of a run

Every finding of a run is told once: the gaps first, in the order of their places and each with
its line and a mark under the place, then the findings without a place, one a line. The lines of
all gaps have their numbers in one gutter.
-/

namespace GlyphTrim

/-- The order of gaps in a report: by place, then by all else that is shown. -/
def Gap.order (a b : Gap) : Ordering :=
  (compare a.context.file b.context.file).then <|
  (compare a.context.line b.context.line).then <|
  (compare a.context.col b.context.col).then <|
  (compare a.context.sourceLine b.context.sourceLine).then <|
  (compare a.reason.rank b.reason.rank).then <|
  compare a.expression b.expression

/-- Gaps in the order of a report. -/
def Gap.sort (gaps : List Gap) : List Gap := gaps.mergeSort fun a b => (a.order b).isLE

namespace Report

/-- A text with blanks in front, so that it takes a number of columns. -/
def rightAligned (width : Nat) (text : String) : String :=
  String.ofList (List.replicate (width - text.length) ' ') ++ text

/-- Lines of text, each with its end. -/
def unlines (lines : List String) : String := String.join (lines.map (· ++ "\n"))

/-- The columns in front of the mark under a gap. -/
def caretOffset (c : SourceContext) : Nat :=
  Text.textWidth (c.sourceLine.toList.take (c.col - 1))

/-- The columns that line numbers take. -/
def gutterWidth (gaps : List Gap) : Nat :=
  match (gaps.map (·.context.line)).max? with
  | some n => (toString n).length
  | none => 1

/-- A gap with its line. -/
def gapLines (gutter : Nat) (g : Gap) : List String :=
  let c := g.context
  let blank := rightAligned gutter ""
  let offset := rightAligned (caretOffset c) ""
  [ s!"{g.severity.text}: {g.message}",
    s!"  --> {c.file}:{c.line}:{c.col}",
    s!"{blank} |",
    s!"{rightAligned gutter (toString c.line)} | {c.sourceLine}",
    s!"{blank} | {offset}^",
    "" ]

/-- The findings without a place, in words. -/
def plainMessages (a : Analysis) : List String :=
  a.scan.skipped.map SkippedFile.message ++ a.scan.walkWarnings ++ a.plan.warnings ++
    a.fontWarnings

/-- A finding on a line. -/
def warningLine (message : String) : String := s!"{Severity.warning.text}: {message}"

/-- What the gaps mean, if there are any. -/
def closing (gaps : List Gap) : List String :=
  if gaps.isEmpty then []
  else
    let what := Text.counted gaps.length "className expression" "className expressions"
    let them := if gaps.length = 1 then "it" else "them"
    [warningLine s!"{what} could not be resolved; icons used only through {them} may be purged"]

/-- The lines of all warnings. -/
def warningLines (a : Analysis) : List String :=
  let gaps := Gap.sort a.scan.gaps
  gaps.flatMap (gapLines (gutterWidth gaps)) ++ (plainMessages a).map warningLine ++ closing gaps

/-- The text of all warnings. -/
def warnings (a : Analysis) : String := unlines (warningLines a)

end Report

end GlyphTrim
