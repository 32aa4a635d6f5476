import GlyphTrim.ClassName.Resolution
import GlyphTrim.Name.Map
import GlyphTrim.Tsx.Module

/-!
# The classes of a file

Every attribute `className` of a module counts, wherever it stands. `Node.attributes` lists all
attributes, each before those in its own value; `usage` joins what they stand for.
-/

namespace GlyphTrim

namespace Tsx

/-- An attribute of an element. -/
structure Attribute where
  name : AttributeName
  value : AttributeValue

mutual

/-- The attributes in an expression, in order. -/
def Expr.attributes : Expr → List Attribute
  | .name .. | .string .. => []
  | .template _ _ spans => Span.attributes spans
  | .tagged _ tag types _ spans =>
    tag.attributes ++ Node.attributesOfAll types ++ Span.attributes spans
  | .conditional _ test yes no => test.attributes ++ yes.attributes ++ no.attributes
  | .call _ callee args types =>
    callee.attributes ++ Item.attributes args ++ Node.attributesOfAll types
  | .object _ members => Member.attributes members
  | .array _ items => Item.attributes items
  | .wrapped _ _ inner types => inner.attributes ++ Node.attributesOfAll types
  | .logical _ _ left right => left.attributes ++ right.attributes
  | .assign _ _ target value => target.attributes ++ value.attributes
  | .other _ _ parts => Node.attributesOfAll parts

/-- The attributes in the slots of a template. -/
def Span.attributes : List Span → List Attribute
  | [] => []
  | .mk slot _ :: rest => slot.attributes ++ Span.attributes rest

/-- The attributes in arguments or elements. -/
def Item.attributes : List Item → List Attribute
  | [] => []
  | .hole :: rest => Item.attributes rest
  | .plain e :: rest | .spread _ e :: rest => e.attributes ++ Item.attributes rest

/-- The attributes in the members of an object. -/
def Member.attributes : List Member → List Attribute
  | [] => []
  | .property key value :: rest =>
    key.attributes ++ value.attributes ++ Member.attributes rest
  | .shorthand .. :: rest => Member.attributes rest
  | .shorthandDefault _ _ value :: rest | .spread _ value :: rest =>
    value.attributes ++ Member.attributes rest
  | .method _ parts :: rest => Node.attributesOfAll parts ++ Member.attributes rest

/-- The attributes in a key. -/
def Key.attributes : Key → List Attribute
  | .computed e => e.attributes
  | _ => []

/-- The attributes in the target of an assignment. -/
def Target.attributes : Target → List Attribute
  | .simple e => e.attributes
  | .pattern _ _ parts => Node.attributesOfAll parts

/-- The attributes in the value of an attribute. -/
def AttributeValue.attributes : AttributeValue → List Attribute
  | .absent | .text _ => []
  | .expression e | .element e => e.attributes

/-- The attributes in a part of the syntax. -/
def Node.attributes : Node → List Attribute
  | .expr e => e.attributes
  | .attribute name value => ⟨name, value⟩ :: value.attributes
  | .form _ parts => Node.attributesOfAll parts

/-- The attributes in parts of the syntax. -/
def Node.attributesOfAll : List Node → List Attribute
  | [] => []
  | n :: rest => n.attributes ++ Node.attributesOfAll rest

end

end Tsx

namespace ClassName

open Text Tsx

/-- What an attribute contributes: the tokens of its text, or what its expression stands for, if
its name is `className`. -/
def resolveAttribute (a : Attribute) : Resolution :=
  match a.name, a.value with
  | .plain "className", .text value => .known (classTokens value)
  | .plain "className", .expression e => resolve e
  | _, _ => .known []

/-- What the attributes of a module stand for. -/
def usage (m : Module) : Resolution :=
  resolveAll resolveAttribute (Node.attributesOfAll m.items)

end ClassName

/-- A file that is no module: where and why. -/
structure ParseError where
  file : String
  line : Nat
  col : Nat
  message : String
  deriving Repr, DecidableEq

/-- The error on one line. -/
def ParseError.text (e : ParseError) : String :=
  s!"{e.file}:{e.line}:{e.col}: {e.message}"

/-- The classes that one file uses, and the gaps in it. -/
structure FileUsage where
  classes : NameSet
  gaps : List Gap

namespace FileUsage

/-- The module that the text of a file holds. -/
def readModule (file : String) (text : List Char) : Except ParseError Tsx.Module :=
  match Tsx.Module.ofText text with
  | .ok m => .ok m
  | .error failure =>
    let at_ := Text.position text failure.place
    .error ⟨file, at_.line, at_.col, failure.fault.message⟩

/-- The gap of an unknown expression. -/
def gapOf (file : String) (text : List Char) (u : ClassName.Unknown) : Gap :=
  let at_ := Text.position text u.place
  ⟨⟨file, at_.line, at_.col, at_.sourceLine⟩, u.reason, u.expression⟩

/-- The usage of a file with a text. -/
def ofText (file : String) (code : String) : Except ParseError FileUsage := do
  let text := Text.dropMark code.toList
  let m ← readModule file text
  let found := ClassName.usage m
  return ⟨NameSet.ofList found.values, found.unknowns.map (gapOf file text)⟩

end FileUsage

end GlyphTrim
