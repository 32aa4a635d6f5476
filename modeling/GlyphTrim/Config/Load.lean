import GlyphTrim.Config.Decode
import GlyphTrim.Config.Violation
import GlyphTrim.Json.Reader

/-!
# Loading configurations

The configuration of a project is read from a file in its root, or from a file that is named. It
has to be there, hold a JSON object, and have nothing wrong with it.
-/

namespace GlyphTrim

/-- Why there is no configuration. -/
inductive ConfigError
  | notFound (path : Path)
  | unreadable (path : Path) (cause : DiskFault)
  /-- The file holds no object, or none that is a configuration. The cause is in words. -/
  | malformed (path : Path) (cause : String)
  | invalid (path : Path) (violations : List Config.Violation)
  deriving Repr, DecidableEq

namespace ConfigError

/-- The error in words. -/
def message : ConfigError → String
  | notFound path => s!"configuration file not found: {path.text}"
  | unreadable path _ => s!"failed to read configuration file {path.text}"
  | malformed path cause =>
    s!"configuration file {path.text} must contain a JSON object: {cause}"
  | invalid path violations =>
    s!"invalid configuration in {path.text}:\n" ++
      "\n".intercalate (violations.map fun v => "  - " ++ v.message)

/-- The error with its cause. A malformed file tells its cause in both parts. -/
def chain : ConfigError → String
  | unreadable path cause => (unreadable path cause).message ++ ": " ++ cause.message
  | malformed path cause => (malformed path cause).message ++ ": " ++ cause
  | e => e.message

end ConfigError

namespace Config

/-- The file of the configuration: in the root, or as it is named. -/
def path (root : Path) : Option Path → Path
  | some named => root.resolve named
  | none => root.join ⟨fileName⟩

/-- The configuration that a text holds, checked. -/
def ofText (site : Site) (path : Path) (text : String) : Except ConfigError Config :=
  match Document.ofText text with
  | .error e => .error (.malformed path e.message)
  | .ok document =>
    match site.check document with
    | [] =>
      match ofDocument document with
      | .ok config => .ok config
      | .error e => .error (.malformed path e.message)
    | violations => .error (.invalid path violations)

/-- The configuration of the project with a root. -/
def load (disk : Disk) (root : Path) (named : Option Path) : Except ConfigError Config :=
  let path := Config.path root named
  if disk.hasFile path then
    match disk.readText path with
    | .error e => .error (.unreadable path e)
    | .ok text => ofText ⟨disk, root⟩ path text
  else .error (.notFound path)

end Config

end GlyphTrim
