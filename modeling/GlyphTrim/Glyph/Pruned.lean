import GlyphTrim.Glyph.Index

/-!
# The pruned stylesheet

What is left of a stylesheet: its font faces, the rules of the base class, and the rules whose
selectors mention a class that keeps its glyph. All of them are written with their source text.
-/

namespace GlyphTrim.Glyph

open Css

/-- The first line of every pruned stylesheet. -/
def banner : String := "/* Auto-generated minified iconfont */"

/-- Whether a text contains another one. -/
def contains (text part : List Char) : Bool :=
  part.isPrefixOf text ||
    match text with
    | [] => false
    | _ :: rest => contains rest part

/-- The selector of a class. -/
def selectorOfClass (c : String) : String := "." ++ c

/-- Whether a rule mentions one of the classes. -/
def mentions (classes : List String) (r : Rule) : Bool :=
  r.selectors.any fun s => classes.any fun c => contains s.toList (selectorOfClass c).toList

/-- The sections in front: the font faces, then the rules of the base class. -/
def headerSections (sheet : Sheet) (base : String) : List String :=
  let (rest, faces) := sheet.takeAtRules "font-face"
  faces.map Node.raw ++
    (rest.rules.filter fun r => r.selector == selectorOfClass base).map (·.raw)

/-- The sections behind: the rules that mention a class that keeps its glyph. -/
def bodySections (sheet : Sheet) (retained : Retained) : List String :=
  let (rest, _) := sheet.takeAtRules "font-face"
  (rest.rules.filter (mentions retained.keys)).map (·.raw)

/-- The pruned stylesheet. -/
def prunedCss (sheet : Sheet) (retained : Retained) (base : String) : String :=
  let header := Text.trim (String.join ((headerSections sheet base).map (· ++ "\n")))
  "\n\n".intercalate (banner :: header :: bodySections sheet retained)

end GlyphTrim.Glyph
