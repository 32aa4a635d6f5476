import GlyphTrim.Font.CharMap

/-!
# Fonts

What a font has to hold to be read at all, and which characters it has no glyph for.
-/

namespace GlyphTrim.Font

/-- Why a byte string is no font. -/
inductive FaceError
  | malformed
  | unknownMagic
  | noFace
  | noHead
  | noHorizontalHeader
  | noProfile
  deriving Repr, DecidableEq

/-- The error in words. -/
def FaceError.message : FaceError → String
  | malformed => "malformed font"
  | unknownMagic => "unknown magic"
  | noFace => "face index is out of bounds"
  | noHead => "the head table is missing or malformed"
  | noHorizontalHeader => "the hhea table is missing or malformed"
  | noProfile => "the maxp table is missing or malformed"

/-- What a font begins with. -/
inductive Magic
  | single
  | collection
  deriving DecidableEq

/-- Reads what a font begins with. -/
def magic? (b : Block) (place : Nat) : Option Magic := do
  match ← b.word? place with
  | 0x00010000 | 0x74727565 | 0x4F54544F => return .single
  | 0x74746366 => return .collection
  | _ => failure

/-- The place after the first word of the face: the first face of a collection counts. -/
def facePlace (b : Block) : Except FaceError Nat := do
  match magic? b 0 with
  | none => throw .unknownMagic
  | some .single => return 4
  | some .collection =>
    let some count := b.word? 8 | throw .malformed
    let some offsets := Row.of? b 12 count 4 | throw .malformed
    let some offset := (offsets.place? 0).bind b.word? | throw .noFace
    if offset < offsets.stop || b.size < offset then throw .malformed
    match magic? b offset with
    | some .single => return offset + 4
    | _ => throw .unknownMagic

/-- A table with a name, as four bytes. A later table counts more than an earlier one. -/
def table? (b : Block) (records : Row) (tag : Nat) : Option (Option Block) :=
  (List.range records.count).foldl (fun found i =>
    match records.place? i with
    | some place =>
      match b.word? place, b.word? (place + 8), b.word? (place + 12) with
      | some t, some offset, some size => if t == tag then some (b.slice? offset size) else found
      | _, _, _ => found
    | none => found) none

/-- Whether a head is well formed. -/
def isHead (b : Block) : Bool :=
  match b.half? 18, b.half? 50 with
  | some units, some format => 54 ≤ b.size && format ≤ 1 && 16 ≤ units && units ≤ 16384
  | _, _ => false

/-- Whether a profile is well formed. -/
def isProfile (b : Block) : Bool :=
  match b.word? 0, b.half? 4 with
  | some version, some count => (version == 0x5000 || version == 0x10000) && count != 0
  | _, _ => false

/-- The character map of a font. -/
def charMap (bytes : ByteArray) : Except FaceError (List CharTable) := do
  let b := Block.ofBytes bytes
  let place ← facePlace b
  let some count := b.half? place | throw .malformed
  let some records := Row.of? b (place + 8) count 16 | throw .malformed
  let find (tag : Nat) : Option Block := (table? b records tag).bind id
  let holds (tag : Nat) (p : Block → Bool) : Bool := ((find tag).map p).getD false
  if !holds 0x68656164 isHead then throw .noHead
  if !holds 0x68686561 (fun t => 36 ≤ t.size) then throw .noHorizontalHeader
  if !holds 0x6D617870 isProfile then throw .noProfile
  return ((find 0x636D6170).map charTables).getD []

/-- The glyphs whose character the font does not have. -/
def missingGlyphs (bytes : ByteArray) (glyphs : List (String × Char)) :
    Except FaceError (List (String × Char)) := do
  let tables ← charMap bytes
  return glyphs.filter fun g => !hasGlyph tables g.2

end GlyphTrim.Font
