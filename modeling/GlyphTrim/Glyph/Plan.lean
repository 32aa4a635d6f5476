import GlyphTrim.Glyph.Codepoint
import GlyphTrim.Glyph.Index
import GlyphTrim.Path

/-!
# What will be written

The plan of a run: which glyphs stay, and where the smaller font and the pruned stylesheet go.
-/

namespace GlyphTrim.Glyph

/-- A plan. -/
structure Plan where
  outputDir : Path
  fontPath : Path
  cssPath : Path
  /-- The classes that keep a glyph, with its character. -/
  glyphs : List (String × Char)
  warnings : List String
  deriving Repr

/-- The directory for what is written: beside the font, named after it. -/
def minOutputDir (font : Path) : Path :=
  (font.parent?.getD ⟨""⟩).join ⟨font.fileStem?.getD "" ++ "-min"⟩

/-- The warning about a class whose escape is no character. -/
def codepointWarning (c literal : String) : String :=
  s!"`{c}` has an invalid codepoint `{literal}`; its glyph is dropped"

/-- The glyphs whose escape is a character. -/
def validGlyphs (retained : Retained) : List (String × Char) :=
  retained.entries.filterMap fun (c, literal) => (parseCodepoint literal).map (c, ·)

/-- The warnings about the others. -/
def codepointWarnings (retained : Retained) : List String :=
  retained.entries.filterMap fun (c, literal) =>
    if (parseCodepoint literal).isSome then none else some (codepointWarning c literal)

namespace Plan

/-- The plan for the classes that keep their glyph, a font and a stylesheet. -/
def ofRetained (retained : Retained) (font css : Path) : Plan :=
  let dir := minOutputDir font
  { outputDir := dir
    fontPath := font
    cssPath := dir.join ⟨css.fileName?.getD ""⟩
    glyphs := validGlyphs retained
    warnings := codepointWarnings retained }

/-- The characters that stay. -/
def text (p : Plan) : String := String.ofList (p.glyphs.map (·.2))

/-- Whether no glyph stays. -/
def isEmpty (p : Plan) : Bool := p.glyphs.isEmpty

end Plan

/-- A request to make a font smaller. -/
structure SubsetRequest where
  fontPath : Path
  outputDir : Path
  /-- The characters that stay. -/
  text : String
  deriving Repr, DecidableEq

namespace SubsetRequest

/-- Where the smaller font goes. -/
def outputFontPath (r : SubsetRequest) : Path :=
  r.outputDir.join ⟨r.fontPath.fileName?.getD "iconfont.ttf"⟩

/-- The characters that stay, as ranges. -/
def ranges (r : SubsetRequest) : String := unicodeRanges r.text

end SubsetRequest

/-- The request of a plan. -/
def Plan.request (p : Plan) : SubsetRequest := ⟨p.fontPath, p.outputDir, p.text⟩

end GlyphTrim.Glyph
