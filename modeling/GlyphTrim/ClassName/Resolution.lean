import GlyphTrim.ClassName.Template
import GlyphTrim.Issue.Gap

/-!
# Resolution

The classes that an expression can stand for. A string stands for its tokens, a condition for what
either branch stands for, a template for its free tokens and for the prefixed values of its slots,
and a call for what its arguments stand for, where an object gives the tokens of its keys. Any
other expression is unknown and leaves a gap. Values and gaps are in the order in which they are
found.
-/

namespace GlyphTrim.ClassName

open Text Tsx

/-- An unknown expression of a text. -/
structure Unknown where
  /-- Where it begins. -/
  place : Nat
  reason : GapReason
  /-- Its kind, in words. -/
  expression : String
  deriving Repr, DecidableEq

/-- What an expression stands for. -/
structure Resolution where
  values : List String
  unknowns : List Unknown
  deriving Repr, DecidableEq

namespace Resolution

/-- What one thing after another stands for. -/
def append (a b : Resolution) : Resolution :=
  ⟨a.values ++ b.values, a.unknowns ++ b.unknowns⟩

instance : Append Resolution := ⟨append⟩

/-- Values that are known. -/
def known (values : List String) : Resolution := ⟨values, []⟩

/-- One thing that is unknown. -/
def unknown (place : Nat) (reason : GapReason) (expression : String) : Resolution :=
  ⟨[], [⟨place, reason, expression⟩]⟩

/-- The tokens of the values. -/
def tokens (a : Resolution) : Resolution := ⟨a.values.flatMap classTokens, a.unknowns⟩

end Resolution

/-- The kind of an expression, in words. -/
def describe : Expr → String
  | .name _ name => s!"identifier `{name}`"
  | .logical _ op _ _ => s!"logical `{op.text}` expression"
  | .array .. => "array literal"
  | .assign .. => "assignment"
  | .call .. => "call expression"
  | .conditional .. => "conditional expression"
  | .string .. => "string literal"
  | .object .. => "object literal"
  | .tagged .. => "tagged template"
  | .template .. => "template literal"
  | .wrapped .. => "expression"
  | .other _ shape _ =>
    match shape with
    | .arrow | .function => "function"
    | .await => "await expression"
    | .binary => "binary expression"
    | .class => "class expression"
    | .number => "number literal"
    | .literal => "literal"
    | .member | .superMember => "member expression"
    | .new _ => "new expression"
    | .optionalChain => "optional chain"
    | .sequence => "sequence expression"
    | .this => "`this`"
    | .unary => "unary expression"
    | .update => "update expression"
    | .yield => "yield expression"
    | .element => "JSX element"
    | .instantiation | .invalid | .other => "expression"

/-- An expression that is unknown as a whole. -/
def Resolution.ofUnknown (e : Expr) (reason : GapReason) : Resolution :=
  .unknown e.place reason (describe e)

/-- An expression without the wrappings that do not change its value. -/
def unwrap : Expr → Expr
  | .wrapped _ _ inner _ => unwrap inner
  | e => e

/-- What a slot stands for, with the prefix in front of it. The values are not cut into tokens. -/
def resolveSlot (start : String) : Expr → Resolution
  | .wrapped _ _ inner _ => resolveSlot start inner
  | .string _ value => .known [start ++ value]
  | .conditional _ _ yes no => resolveSlot start yes ++ resolveSlot start no
  | e => .ofUnknown e .templateSlot

/-- What the slots and the texts after them stand for, where `before` is the text before. -/
def resolveSpans (before : String) : List Span → Resolution
  | [] => .known []
  | .mk slot tail :: rest =>
    (resolveSlot ((inferPrefix before).getD "") slot).tokens ++
      .known (freeTokens tail true !rest.isEmpty) ++ resolveSpans tail rest

/-- What a template stands for. -/
def resolveTemplate (head : String) (spans : List Span) : Resolution :=
  .known (freeTokens head false !spans.isEmpty) ++ resolveSpans head spans

/-- What a member of an object stands for: the tokens of its key, whatever its value. -/
def resolveMember : Member → Resolution
  | .property (.string key) _ => .known (classTokens key)
  | .property (.computed key) _ => .ofUnknown key .helperArgument
  | _ => .known []

/-- What a list of things stands for. -/
def resolveAll {α : Type} (f : α → Resolution) : List α → Resolution
  | [] => .known []
  | a :: rest => f a ++ resolveAll f rest

/-- What an argument of a call stands for. -/
def resolveArgument : Item → Resolution
  | .spread place _ => .unknown place .helperArgument "spread argument"
  | .hole => .known []
  | .plain e =>
    match unwrap e with
    | .string _ value => .known (classTokens value)
    | .object _ members => resolveAll resolveMember members
    | .template _ head spans => resolveTemplate head spans
    | e => .ofUnknown e .helperArgument

/-- What an expression stands for. -/
def resolve : Expr → Resolution
  | .wrapped _ _ inner _ => resolve inner
  | .string _ value => .known (classTokens value)
  | .conditional _ _ yes no => resolve yes ++ resolve no
  | .template _ head spans => resolveTemplate head spans
  | .call _ _ args _ => resolveAll resolveArgument args
  | e => .ofUnknown e .expression

end GlyphTrim.ClassName
