import GlyphTrim.Json.Value
import GlyphTrim.Text.Quoted

/-!
# What is wrong with a JSON text

The causes for which a text is no document, and where: a line, and a column counted in bytes.
-/

namespace GlyphTrim

/-- Why a text is no document. -/
inductive JsonFault
  | endInValue
  | endInList
  | endInObject
  | endInString
  | colonExpected
  | listCommaExpected
  | objectCommaExpected
  | wordExpected
  | valueExpected
  | invalidEscape
  | invalidNumber
  | numberOutOfRange
  | controlCharacter
  | nameExpected
  | loneSurrogate
  | trailingComma
  | trailingText
  | unfinishedPair
  | tooDeep
  /-- The text is a value of another kind than an object. -/
  | otherKind (found : String)
  deriving Repr, DecidableEq

/-- The cause in words. -/
def JsonFault.message : JsonFault → String
  | endInValue => "EOF while parsing a value"
  | endInList => "EOF while parsing a list"
  | endInObject => "EOF while parsing an object"
  | endInString => "EOF while parsing a string"
  | colonExpected => "expected `:`"
  | listCommaExpected => "expected `,` or `]`"
  | objectCommaExpected => "expected `,` or `\x7d`"
  | wordExpected => "expected ident"
  | valueExpected => "expected value"
  | invalidEscape => "invalid escape"
  | invalidNumber => "invalid number"
  | numberOutOfRange => "number out of range"
  | controlCharacter => "control character (\\u0000-\\u001F) found while parsing a string"
  | nameExpected => "key must be a string"
  | loneSurrogate => "lone leading surrogate in hex escape"
  | trailingComma => "trailing comma"
  | trailingText => "trailing characters"
  | unfinishedPair => "unexpected end of hex escape"
  | tooDeep => "recursion limit exceeded"
  | otherKind found => s!"invalid type: {found}, expected a map"

/-- The kind of a number, in words. -/
def JsonNumber.kind : JsonNumber → String
  | natural n => s!"integer `{n}`"
  | negative n => s!"integer `-{n}`"
  | real false x => s!"floating point `{x.text}`"
  | real true x => s!"floating point `-{x.text}`"

/-- The kind of a value, in words. -/
def JsonValue.kind : JsonValue → String
  | null => "null"
  | bool b => s!"boolean `{b}`"
  | number n => n.kind
  | string s => "string " ++ Text.quoted s
  | list _ => "sequence"
  | object _ => "map"

/-- A cause with its place. -/
structure JsonError where
  fault : JsonFault
  line : Nat
  /-- The bytes of the line in front of the place. -/
  col : Nat
  deriving Repr, DecidableEq

/-- The error in words. -/
def JsonError.message (e : JsonError) : String :=
  s!"{e.fault.message} at line {e.line} column {e.col}"

namespace JsonError

/-- The line and the column of a place, given as the bytes in front of it. `line` and `col` are
those of the text that is passed. -/
def placeFrom (line col left : Nat) : List Char → Nat × Nat
  | [] => (line, col)
  | c :: cs =>
    if left < c.utf8Size then (line, col + left)
    else if c == '\n' then placeFrom (line + 1) 0 (left - 1) cs
    else placeFrom line (col + c.utf8Size) (left - c.utf8Size) cs

end JsonError

end GlyphTrim
