import GlyphTrim.Json.Printer
import GlyphTrim.Path

/-!
# The configuration of a project

What a project tells about itself: where its source files are, its stylesheet and its font, the
class that all icons share, classes that stay in any case, and paths that do not count. Its paths
are taken from the root of the project.
-/

namespace GlyphTrim

/-- The configuration of a project. -/
structure Config where
  /-- The directories of source files. -/
  entry : List String
  stylesheet : String
  font : String
  /-- The class that all icons share. -/
  iconPrefix : String
  /-- Classes that are in use whether a source file names them or not. -/
  excludeClasses : List String := []
  /-- Paths that are not looked at for source files. -/
  excludeFilePath : List String := []
  deriving Repr, DecidableEq

namespace Config

/-- The fields of a configuration. -/
inductive Field
  | entry
  | stylesheet
  | font
  | iconPrefix
  | excludeClasses
  | excludeFilePath
  deriving Repr, DecidableEq

/-- All fields, in order. -/
def Field.all : List Field :=
  [.entry, .stylesheet, .font, .iconPrefix, .excludeClasses, .excludeFilePath]

/-- The name of a field in a document. -/
def Field.name : Field → String
  | entry => "entry"
  | stylesheet => "iconfontCssPath"
  | font => "fontTTFPath"
  | iconPrefix => "iconPrefix"
  | excludeClasses => "excludeClasses"
  | excludeFilePath => "excludeFilePath"

/-- The field with a name. -/
def Field.ofName? (name : String) : Option Field := Field.all.find? (·.name == name)

/-- The name of the file that holds the configuration, unless another one is named. -/
def fileName : String := "react-unused-icon-purge.json"

/-- The configuration that a new project begins with. -/
def initial : Config where
  entry := ["src"]
  stylesheet := "src/assets/iconfont/iconfont.css"
  font := "src/assets/iconfont/iconfont.ttf"
  iconPrefix := "iconfont"

/-- The value of a field. -/
def value (c : Config) : Field → JsonValue
  | .entry => .list (c.entry.map .string)
  | .stylesheet => .string c.stylesheet
  | .font => .string c.font
  | .iconPrefix => .string c.iconPrefix
  | .excludeClasses => .list (c.excludeClasses.map .string)
  | .excludeFilePath => .list (c.excludeFilePath.map .string)

/-- The document of a configuration: all its fields. -/
def document (c : Config) : Document :=
  .ofMembers (Field.all.map fun f => .mk f.name (c.value f))

/-- The text of the configuration that a new project begins with. -/
def template : String := initial.document.text

/-! ## Paths -/

/-- The directories of source files, taken from a root. -/
def entryDirs (c : Config) (root : Path) : List Path := c.entry.map fun p => root.resolve ⟨p⟩

/-- The paths that are not looked at, taken from a root. -/
def excludedPaths (c : Config) (root : Path) : List Path :=
  c.excludeFilePath.map fun p => root.resolve ⟨p⟩

/-- The stylesheet, taken from a root. -/
def cssPath (c : Config) (root : Path) : Path := root.resolve ⟨c.stylesheet⟩

/-- The font, taken from a root. -/
def fontPath (c : Config) (root : Path) : Path := root.resolve ⟨c.font⟩

end Config

end GlyphTrim
