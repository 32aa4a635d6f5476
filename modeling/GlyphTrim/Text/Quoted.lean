import GlyphTrim.Text.Blank
import GlyphTrim.Text.Width

/-!
# Quoted text

A text in double quotes, in which every character can be seen: a quote and a backslash have a
backslash in front, and what has no shape of its own is written by its number.
-/

namespace GlyphTrim.Text

/-- Vowels and finals of conjoining Hangul, which have a shape though they take no column. -/
def isConjoining (c : Char) : Bool :=
  let n := c.toNat
  (0x1160 ≤ n && n ≤ 0x11FF) || (0xD7B0 ≤ n && n ≤ 0xD7FF)

/-- Characters without a meaning of their own. -/
def isPrivate (c : Char) : Bool :=
  let n := c.toNat
  (0xE000 ≤ n && n ≤ 0xF8FF) || 0xF0000 ≤ n

/-- Whether a character can be seen. -/
def isVisible (c : Char) : Bool :=
  c == ' ' ||
    !(isControl c || isBlank c || isPrivate c || (charWidth c == 0 && !isConjoining c))

/-- A character inside quotes. -/
def quoteChar (c : Char) : List Char :=
  if c == '"' || c == '\\' then ['\\', c]
  else if c == '\n' then ['\\', 'n']
  else if c == '\r' then ['\\', 'r']
  else if c == '\t' then ['\\', 't']
  else if c == '\x00' then ['\\', '0']
  else if isVisible c then [c]
  else ['\\', 'u', '\x7b'] ++ Nat.toDigits 16 c.toNat ++ ['\x7d']

/-- A text in quotes. -/
def quoted (s : String) : String :=
  String.ofList ('"' :: (s.toList.flatMap quoteChar ++ ['"']))

end GlyphTrim.Text
