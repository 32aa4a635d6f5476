import GlyphTrim.Css.Sheet
import GlyphTrim.Name.Map

/-!
# The glyphs of a stylesheet

A rule with the selector `.c:before` declares the glyph of the class `c` if one of its `content`
declarations is a quoted escape. The index holds the classes in use whose glyph is declared; a
later rule counts more than an earlier one.
-/

namespace GlyphTrim.Glyph

open Css

/-- The glyph of a class. -/
structure Entry where
  /-- The escape, without its quotes. -/
  literal : String
  /-- The line of the rule that declares it. -/
  line : Nat
  deriving Repr, DecidableEq

/-- The glyphs of classes. -/
abbrev Index := NameMap Entry

/-- What ends the selector of a glyph. -/
def glyphEnding : List Char := ":before".toList

/-- The class whose glyph a selector is about. -/
def classOfSelector (selector : String) : Option String :=
  match selector.toList with
  | '.' :: rest =>
    if glyphEnding.isSuffixOf rest && glyphEnding.length < rest.length then
      some (String.ofList (rest.take (rest.length - glyphEnding.length)))
    else none
  | _ => none

/-- The escape that a quoted value holds. A value whose closing quote is missing counts too. -/
def quotedEscape (value : String) : Option String :=
  match value.toList with
  | quote :: inner =>
    if quote == '"' || quote == '\'' then
      let inner := if inner.getLast? == some quote then inner.dropLast else inner
      if inner.head? == some '\\' then some (String.ofList inner) else none
    else none
  | [] => none

/-- The last escape that a rule gives as its content. -/
def literalOfRule (r : Rule) : Option String :=
  ((r.declarationsOf "content").filterMap (quotedEscape ·.value)).getLast?

/-- The classes in use that a rule is about. -/
def classesOfRule (used : NameSet) (r : Rule) : List String :=
  (r.selectors.filterMap classOfSelector).filter used.contains

/-- The index after one more rule. -/
def addRule (used : NameSet) (index : Index) (r : Rule) : Index :=
  match literalOfRule r with
  | some literal =>
    (classesOfRule used r).foldl (fun index c => index.insert c ⟨literal, r.line⟩) index
  | none => index

/-- The index of a stylesheet for the classes in use. -/
def buildIndex (sheet : Sheet) (used : NameSet) : Index :=
  sheet.rules.foldl (addRule used) NameMap.empty

/-- Classes that keep their glyph, with the escape of each. -/
abbrev Retained := NameMap String

/-- The classes in use that are in the index. -/
def reconcile (used : NameSet) (index : Index) : Retained :=
  (index.filter fun c _ => used.contains c).map (·.literal)

end GlyphTrim.Glyph
