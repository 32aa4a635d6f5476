/-!
# Gaps

A gap is an expression in a class attribute that is not a literal, so the classes it stands for
are unknown and nothing is kept for them.
-/

namespace GlyphTrim

/-- A place in a file, with the line that holds it. -/
structure SourceContext where
  file : String
  line : Nat
  /-- The display column, counted from one. -/
  col : Nat
  sourceLine : String
  deriving Repr, DecidableEq

/-- Where in a class attribute an unknown expression stands. -/
inductive GapReason
  /-- It is the whole attribute, or a branch of it. -/
  | expression
  /-- It is a slot of a template. -/
  | templateSlot
  /-- It is an argument of a call that joins classes. -/
  | helperArgument
  deriving Repr, DecidableEq

namespace GapReason

/-- The place in words. -/
def text : GapReason → String
  | expression => "className expression"
  | templateSlot => "template literal slot"
  | helperArgument => "class helper argument"

/-- The order of reasons in a report. -/
def rank : GapReason → Nat
  | expression => 0
  | templateSlot => 1
  | helperArgument => 2

end GapReason

/-- A gap in a file. -/
structure Gap where
  context : SourceContext
  reason : GapReason
  /-- The kind of the expression, in words. -/
  expression : String
  deriving Repr, DecidableEq

/-- What a report says about a gap. -/
def Gap.message (g : Gap) : String :=
  s!"{g.reason.text} is not a literal ({g.expression}); classes derived from it are not retained"

end GlyphTrim
