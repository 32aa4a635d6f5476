import GlyphTrim.Config.Basic
import GlyphTrim.Disk.Basic
import GlyphTrim.Text.Ascii
import GlyphTrim.Text.Blank

/-!
# Checking configurations

A document is checked as a whole, so that all that is wrong with it is told at once: first the
fields that no configuration has, then field by field in their order. The directories and files
that it names have to be there.
-/

namespace GlyphTrim.Config

/-- Something wrong with a document. -/
inductive Violation
  | unknownField (name : String)
  | missing (f : Field)
  /-- There is no directory of source files. -/
  | noEntry
  | entryNotThere (index : Nat) (dir : String)
  | entryNotList
  | itemNotString (f : Field) (index : Nat)
  | notString (f : Field)
  | notStringList (f : Field)
  | wrongExtension (f : Field) (expected : List String) (value : String)
  | fileNotThere (f : Field) (value : String)
  | blankPrefix
  deriving Repr, DecidableEq

/-- What is wrong, in words. -/
def Violation.message : Violation → String
  | unknownField name => s!"unknown field `{name}`"
  | missing f => s!"`{f.name}` is required"
  | noEntry => "`entry` must list at least one directory"
  | entryNotThere index dir => s!"`entry[{index}]` directory does not exist: {dir}"
  | entryNotList => "`entry` must be an array of directory paths"
  | itemNotString f index => s!"`{f.name}[{index}]` must be a string"
  | notString f => s!"`{f.name}` must be a string"
  | notStringList f => s!"`{f.name}` must be an array of strings"
  | wrongExtension f expected value =>
    let endings := " or ".intercalate (expected.map ("." ++ ·))
    s!"`{f.name}` must end in {endings}: {value}"
  | fileNotThere f value => s!"`{f.name}` file does not exist: {value}"
  | blankPrefix => "`iconPrefix` must not be empty"

/-- What a document is checked against. -/
structure Site where
  disk : Disk
  root : Path

namespace Site

/-- The members that no configuration has. -/
def checkNames (d : Document) : List Violation :=
  (d.names.filter fun n => (Field.ofName? n).isNone).map .unknownField

/-- The check of an item of the directories of source files. -/
def checkEntryItem (s : Site) (index : Nat) : JsonValue → Option Violation
  | .string dir =>
    if s.disk.hasFolder (s.root.resolve ⟨dir⟩) then none else some (.entryNotThere index dir)
  | _ => some (.itemNotString .entry index)

/-- The check of the directories of source files. -/
def checkEntry (s : Site) : Option JsonValue → List Violation
  | none => [.missing .entry]
  | some (.list []) => [.noEntry]
  | some (.list items) => items.zipIdx.filterMap fun (v, i) => s.checkEntryItem i v
  | some _ => [.entryNotList]

/-- Whether a path has one of some extensions. -/
def hasExtension (extensions : List String) (value : String) : Bool :=
  match Path.extension? ⟨value⟩ with
  | some e => extensions.any (Text.sameIgnoringCase e)
  | none => false

/-- The check of a field that names a file. -/
def checkFile (s : Site) (f : Field) (extensions : List String) :
    Option JsonValue → List Violation
  | none => [.missing f]
  | some (.string value) =>
    if !hasExtension extensions value then [.wrongExtension f extensions value]
    else if s.disk.hasFile (s.root.resolve ⟨value⟩) then []
    else [.fileNotThere f value]
  | some _ => [.notString f]

/-- The check of the class that all icons share. -/
def checkPrefix : Option JsonValue → List Violation
  | none => [.missing .iconPrefix]
  | some (.string value) => if (Text.trim value).isEmpty then [.blankPrefix] else []
  | some _ => [.notString .iconPrefix]

/-- The check of an item of a list of strings. -/
def checkItem (f : Field) (index : Nat) : JsonValue → Option Violation
  | .string _ => none
  | _ => some (.itemNotString f index)

/-- The check of a field that may be missing and is a list of strings. -/
def checkStrings (f : Field) : Option JsonValue → List Violation
  | none => []
  | some (.list items) => items.zipIdx.filterMap fun (v, i) => checkItem f i v
  | some _ => [.notStringList f]

/-- All that is wrong with a document, in order. -/
def check (s : Site) (d : Document) : List Violation :=
  let value (f : Field) : Option JsonValue := d.find? f.name
  checkNames d ++ s.checkEntry (value .entry) ++
    s.checkFile .stylesheet ["css"] (value .stylesheet) ++
    s.checkFile .font ["ttf", "otf"] (value .font) ++
    checkPrefix (value .iconPrefix) ++
    checkStrings .excludeClasses (value .excludeClasses) ++
    checkStrings .excludeFilePath (value .excludeFilePath)

end Site

end GlyphTrim.Config
