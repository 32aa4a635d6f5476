import GlyphTrim.Text.Width

/-!
# Places in a source text

A place is a number of characters from the start of the text. For a reader it is a line, counted
from one, and a display column, counted from one. Lines end at a line feed, at a carriage return,
or at the two together; a line that would begin at the very end of the text is not counted, so
the end of the text belongs to the last line that holds something.
-/

namespace GlyphTrim.Text

/-- The place where the line of a place begins, with the number of that line and the text from
there on. -/
structure LineStart where
  line : Nat
  place : Nat
  rest : List Char

/-- Whether a line that begins at `next`, with `rest` after it, still begins at or before
`place`. -/
def reaches (place next : Nat) (rest : List Char) : Bool :=
  next ≤ place && !rest.isEmpty

/-- Finds the line that holds `place`, starting from a line that begins at or before it. `at_`
is the place of the first character of the remaining text. -/
def lineStart (place : Nat) (start : LineStart) (at_ : Nat) : List Char → LineStart
  | [] => start
  | '\r' :: '\n' :: rest =>
    if reaches place (at_ + 2) rest then
      lineStart place ⟨start.line + 1, at_ + 2, rest⟩ (at_ + 2) rest
    else start
  | c :: rest =>
    if c == '\r' || c == '\n' then
      if reaches place (at_ + 1) rest then
        lineStart place ⟨start.line + 1, at_ + 1, rest⟩ (at_ + 1) rest
      else start
    else lineStart place start (at_ + 1) rest

/-- Columns of one character in front of a place: a tab takes four, other control characters
none; the characters of a line break, which are in front of a place only at the end of the text,
take one. A character outside the basic plane takes one column more than it is wide, since it is
counted as two halves. -/
def columnsBefore (c : Char) : Nat :=
  if c == '\t' then 4
  else if c == '\n' || c == '\r' then 1
  else if isControl c then 0
  else if 0x10000 ≤ c.toNat then charWidth c + 1
  else charWidth c

/-- A position for a reader. -/
structure Position where
  line : Nat
  col : Nat
  /-- The line from its start to the next line feed. -/
  sourceLine : String
  deriving Repr, DecidableEq

/-- The position of a place in a text. -/
def position (text : List Char) (place : Nat) : Position :=
  let start := lineStart place ⟨1, 0, text⟩ 0 text
  let before := start.rest.take (place - start.place)
  { line := start.line
    col := (before.map columnsBefore).foldl (· + ·) 1
    sourceLine := String.ofList (start.rest.takeWhile (· != '\n')) }

/-- The text without a byte order mark at its start. -/
def dropMark : List Char → List Char
  | '\uFEFF' :: rest => rest
  | cs => cs

end GlyphTrim.Text
