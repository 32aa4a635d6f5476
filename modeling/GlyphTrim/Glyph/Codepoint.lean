import GlyphTrim.Text.Ascii

/-!
# Codepoints

A glyph is declared by an escape such as `\e600`. `parseCodepoint` reads the character that it
means; `formatCodepoint` writes a character as a subsetter wants it, `U+E600`.
-/

namespace GlyphTrim.Glyph

open Text (hexDigit? isHexDigit)

/-- The hexadecimal digits of a literal: its backslashes are dropped, then one `u` at the start. -/
def codepointDigits (literal : String) : List Char :=
  let cs := literal.toList.filter (· != '\\')
  let cs :=
    match cs with
    | 'u' :: rest => rest
    | cs => cs
  cs.takeWhile isHexDigit

/-- A number of 32 bits with one more hexadecimal digit behind it, if that takes no more bits. -/
def pushDigit? (n digit : UInt32) : Option UInt32 :=
  if n < 0x10000000 then some (n * 16 + digit) else none

/-- The number of 32 bits that hexadecimal digits write, if it takes no more bits. -/
def hexWord? (digits : List Char) : Option UInt32 :=
  digits.foldlM (fun n c => pushDigit? n (UInt32.ofNat ((hexDigit? c).getD 0))) 0

/-- The character with a number, if it is the number of one. -/
def character? (n : UInt32) : Option Char :=
  if h : n.isValidChar then some ⟨n, h⟩ else none

/-- The character of a literal, if its digits are the number of one. -/
def parseCodepoint (literal : String) : Option Char :=
  let digits := codepointDigits literal
  if digits.isEmpty then none else (hexWord? digits).bind character?

/-- A hexadecimal digit, in capitals. -/
def capitalDigit (n : Nat) : Char :=
  if n < 10 then Char.ofNat (48 + n) else Char.ofNat (55 + n)

/-- The hexadecimal digits of a number, in capitals, of which there are at least `width`. -/
def capitalHex (width n : Nat) : List Char :=
  match width with
  | 0 => if n = 0 then [] else capitalHex 0 (n / 16) ++ [capitalDigit (n % 16)]
  | width + 1 => capitalHex width (n / 16) ++ [capitalDigit (n % 16)]
  termination_by width + n

/-- A character as a range of one codepoint: four digits or more. -/
def formatCodepoint (c : Char) : String := String.ofList ('U' :: '+' :: capitalHex 4 c.toNat)

/-- The characters of a text as ranges, with commas between them. -/
def unicodeRanges (text : String) : String :=
  ",".intercalate (text.toList.map formatCodepoint)

end GlyphTrim.Glyph
