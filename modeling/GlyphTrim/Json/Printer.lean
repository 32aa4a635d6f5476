import GlyphTrim.Json.Value

/-!
# Writing JSON

A value is written on lines of its own: each item of a list and each member of an object has a
line, indented by two spaces for each level. Lists and objects without content stay on one line.
-/

namespace GlyphTrim

namespace Json

/-- A hexadecimal digit. -/
def hexDigit (n : Nat) : Char := if n < 10 then Char.ofNat (48 + n) else Char.ofNat (87 + n)

/-- A character inside a string. -/
def stringChar (c : Char) : List Char :=
  if c == '"' || c == '\\' then ['\\', c]
  else if c == '\x08' then ['\\', 'b']
  else if c == '\x0C' then ['\\', 'f']
  else if c == '\n' then ['\\', 'n']
  else if c == '\r' then ['\\', 'r']
  else if c == '\t' then ['\\', 't']
  else if c.toNat < 0x20 then
    ['\\', 'u', '0', '0', hexDigit (c.toNat / 16), hexDigit (c.toNat % 16)]
  else [c]

/-- A string in quotes. -/
def stringText (s : String) : String :=
  String.ofList ('"' :: (s.toList.flatMap stringChar ++ ['"']))

/-- A number. -/
def numberText : JsonNumber → String
  | .natural n => toString n
  | .negative n => s!"-{n}"
  | .real negative x => (if negative then "-" else "") ++ x.text

/-- The start of a line at a level. -/
def indent (level : Nat) : String := String.ofList (List.replicate (2 * level) ' ')

/-- Lines between brackets, if there are any. -/
def bracketed (level : Nat) (opening closing : String) (lines : List String) : String :=
  if lines.isEmpty then opening ++ closing
  else
    opening ++ "\n" ++ ",\n".intercalate (lines.map (indent (level + 1) ++ ·)) ++ "\n" ++
      indent level ++ closing

mutual

/-- A value that stands at a level. -/
def valueText (level : Nat) : JsonValue → String
  | .null => "null"
  | .bool b => if b then "true" else "false"
  | .number n => numberText n
  | .string s => stringText s
  | .list items => bracketed level "[" "]" (itemTexts (level + 1) items)
  | .object members => bracketed level "\x7b" "\x7d" (memberTexts (level + 1) members)

/-- The items of a list that stand at a level. -/
def itemTexts (level : Nat) : List JsonValue → List String
  | [] => []
  | v :: rest => valueText level v :: itemTexts level rest

/-- The members of an object that stand at a level. -/
def memberTexts (level : Nat) : List JsonMember → List String
  | [] => []
  | .mk name v :: rest => (stringText name ++ ": " ++ valueText level v) :: memberTexts level rest

end

end Json

/-- The text of a document. -/
def Document.text (d : Document) : String := Json.valueText 0 (.object d.members)

end GlyphTrim
