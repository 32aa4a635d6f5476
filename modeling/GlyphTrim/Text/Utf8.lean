/-!
# Bytes and text

The text that bytes hold in UTF-8. `decode?` is strict: bytes that are not well formed hold no
text. `decodeLossy` gives every byte string a text, with one replacement character for each
longest part that begins a character and does not complete it.
-/

namespace GlyphTrim.Text

/-- The text that bytes hold, if they are well formed. -/
def decode? (bytes : ByteArray) : Option String := String.fromUTF8? bytes

/-- The bytes of a text. -/
def encode (text : String) : ByteArray := text.toUTF8

/-- The bytes of a text hold the text. -/
@[simp] theorem decode?_encode (text : String) : decode? (encode text) = some text := by
  have hvalid : text.toByteArray.IsValidUTF8 := text.isValidUTF8
  simp [decode?, encode, String.fromUTF8?, String.fromUTF8, hvalid]

/-- The character that stands for bytes that are not well formed. -/
def replacement : Char := Char.ofNat 0xFFFD

/-- How many bytes follow the first byte of a character, and the range of the second byte. -/
def leadRange (b : Nat) : Option (Nat × Nat × Nat) :=
  if 0xC2 ≤ b && b ≤ 0xDF then some (1, 0x80, 0xBF)
  else if b == 0xE0 then some (2, 0xA0, 0xBF)
  else if b == 0xED then some (2, 0x80, 0x9F)
  else if 0xE1 ≤ b && b ≤ 0xEF then some (2, 0x80, 0xBF)
  else if b == 0xF0 then some (3, 0x90, 0xBF)
  else if b == 0xF4 then some (3, 0x80, 0x8F)
  else if 0xF1 ≤ b && b ≤ 0xF3 then some (3, 0x80, 0xBF)
  else none

/-- Reads the bytes that complete a character. `acc` is the number read so far, `more` how many
bytes are missing, and the next one lies between `lo` and `hi`. The result is the character and
how many bytes were read, or nothing and how many bytes fitted. -/
def readTail (acc lo hi : Nat) : Nat → List UInt8 → Option Char × Nat
  | 0, _ => (some (Char.ofNat acc), 0)
  | _ + 1, [] => (none, 0)
  | more + 1, b :: bs =>
    let n := b.toNat
    if lo ≤ n && n ≤ hi then
      let (c, read) := readTail (acc * 64 + (n - 0x80)) 0x80 0xBF more bs
      (c, read + 1)
    else (none, 0)

/-- The character at the start of bytes, and how many bytes it takes after the first. -/
def firstCharacter (b : UInt8) (rest : List UInt8) : Char × Nat :=
  let n := b.toNat
  if n < 0x80 then (Char.ofNat n, 0)
  else
    match leadRange n with
    | none => (replacement, 0)
    | some (more, lo, hi) =>
      let start := if more = 1 then n - 0xC0 else if more = 2 then n - 0xE0 else n - 0xF0
      let (c, read) := readTail start lo hi more rest
      (c.getD replacement, read)

/-- The characters of bytes, of which the first `skip` are already read. -/
def lossyFrom (skip : Nat) : List UInt8 → List Char
  | [] => []
  | b :: bs =>
    match skip with
    | skip + 1 => lossyFrom skip bs
    | 0 =>
      let (c, read) := firstCharacter b bs
      c :: lossyFrom read bs

/-- The text of bytes, whether they are well formed or not. -/
def decodeLossy (bytes : ByteArray) : String := String.ofList (lossyFrom 0 bytes.toList)

end GlyphTrim.Text
