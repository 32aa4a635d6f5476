import GlyphTrim.Config.Basic
import GlyphTrim.Json.Fault

/-!
# Configurations from documents

`Config.ofDocument` takes the fields of a configuration from a document by their types alone: no
field but the six is there, each value has the type of its field, and the first four fields are
there. Whether the values make sense is not asked here.
-/

namespace GlyphTrim.Config

/-- Why a document is no configuration. -/
inductive DecodeFault
  | unknownField (name : String)
  | missingField (f : Field)
  /-- A value has the wrong type. -/
  | wrongType (found : String) (expected : String)
  deriving Repr, DecidableEq

/-- The cause in words. -/
def DecodeFault.message : DecodeFault → String
  | unknownField name =>
    s!"unknown field `{name}`, expected one of " ++
      ", ".intercalate (Field.all.map fun f => "`" ++ f.name ++ "`")
  | missingField f => s!"missing field `{f.name}`"
  | wrongType found expected => s!"invalid type: {found}, expected {expected}"

/-- A value that is a string. -/
def decodeString : JsonValue → Except DecodeFault String
  | .string s => .ok s
  | v => .error (.wrongType v.kind "a string")

/-- A value that is a list of strings. -/
def decodeStrings : JsonValue → Except DecodeFault (List String)
  | .list items => items.mapM decodeString
  | v => .error (.wrongType v.kind "a sequence")

/-- A configuration of which some fields are known. -/
structure Draft where
  entry : Option (List String) := none
  stylesheet : Option String := none
  font : Option String := none
  iconPrefix : Option String := none
  excludeClasses : Option (List String) := none
  excludeFilePath : Option (List String) := none

namespace Draft

/-- The draft with one member more. -/
def add (d : Draft) (m : JsonMember) : Except DecodeFault Draft :=
  match Field.ofName? m.name with
  | none => .error (.unknownField m.name)
  | some .entry => (decodeStrings m.value).map fun v => { d with entry := some v }
  | some .stylesheet => (decodeString m.value).map fun v => { d with stylesheet := some v }
  | some .font => (decodeString m.value).map fun v => { d with font := some v }
  | some .iconPrefix => (decodeString m.value).map fun v => { d with iconPrefix := some v }
  | some .excludeClasses =>
    (decodeStrings m.value).map fun v => { d with excludeClasses := some v }
  | some .excludeFilePath =>
    (decodeStrings m.value).map fun v => { d with excludeFilePath := some v }

/-- The configuration of a draft, in which the last two fields may be missing. -/
def finish (d : Draft) : Except DecodeFault Config :=
  match d.entry, d.stylesheet, d.font, d.iconPrefix with
  | none, _, _, _ => .error (.missingField .entry)
  | _, none, _, _ => .error (.missingField .stylesheet)
  | _, _, none, _ => .error (.missingField .font)
  | _, _, _, none => .error (.missingField .iconPrefix)
  | some entry, some stylesheet, some font, some iconPrefix =>
    .ok { entry, stylesheet, font, iconPrefix
          excludeClasses := d.excludeClasses.getD []
          excludeFilePath := d.excludeFilePath.getD [] }

end Draft

/-- The configuration that a document holds. -/
def ofDocument (d : Document) : Except DecodeFault Config :=
  match d.members.foldlM Draft.add {} with
  | .ok draft => draft.finish
  | .error e => .error e

end GlyphTrim.Config
