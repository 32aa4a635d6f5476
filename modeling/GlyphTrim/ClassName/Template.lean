import GlyphTrim.Text.Blank
import GlyphTrim.Tsx.Syntax

/-!
# Templates

A template is cut into static texts with slots between them. The end of a static text can be glued
to the slot after it: if it is a token of two or more characters that ends in a hyphen, it is the
*prefix* of the names in the slot. Tokens that touch no slot are classes on their own.
-/

namespace GlyphTrim.ClassName

open Text

/-- The longest end of a text without white space. -/
def lastRun (cs : List Char) : List Char :=
  (cs.reverse.takeWhile fun c => !isBlank c).reverse

/-- The beginning of a class name at the end of a static text, if there is one. -/
def inferPrefix (text : String) : Option String :=
  let run := lastRun text.toList
  if 2 ≤ run.length ∧ run.getLast? = some '-' then some (String.ofList run) else none

/-- A piece of a template. -/
inductive TemplatePart
  | static (text : String)
  /-- A slot, and the prefix in front of it. -/
  | slot (expr : Tsx.Expr) (start : Option String)

/-- The slots of a template with the texts after them, where `before` is the text before. -/
def spanParts (before : String) : List Tsx.Span → List TemplatePart
  | [] => []
  | .mk slot tail :: rest =>
    .slot slot (inferPrefix before) :: .static tail :: spanParts tail rest

/-- The pieces of a template: static texts at both ends, and a slot between any two. -/
def templateParts (head : String) (spans : List Tsx.Span) : List TemplatePart :=
  .static head :: spanParts head spans

/-- The tokens of a static text that touch no slot. -/
def freeTokens (text : String) (afterSlot beforeSlot : Bool) : List String :=
  let cs := text.toList
  let tokens := classTokens text
  let tokens :=
    if beforeSlot && !(cs.getLast?.map isBlank).getD false then tokens.dropLast else tokens
  if afterSlot && !(cs.head?.map isBlank).getD false then tokens.drop 1 else tokens

end GlyphTrim.ClassName
