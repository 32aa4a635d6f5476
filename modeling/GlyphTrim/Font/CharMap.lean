import GlyphTrim.Font.Block

/-!
# Character maps

A font maps characters to glyphs by tables of several formats. A character has a glyph if one of
the tables for Unicode gives it one.
-/

namespace GlyphTrim.Font

/-- A format of a table, with what it says. The block is the table. -/
inductive Mapping
  /-- A glyph for each of 256 codes. -/
  | bytes (glyphs : Row)
  /-- Codes of one and two bytes. -/
  | mixed (block : Block) (keys headers : Row)
  /-- Segments of codes. -/
  | segments (block : Block) (count : Nat)
  /-- A run of codes, with a glyph for each. -/
  | run (first : Nat) (limit : Option Nat) (glyphs : Row)
  /-- Groups of codes whose glyphs follow one another. -/
  | groups (groups : Row)
  /-- Groups of codes with one glyph each. -/
  | constants (groups : Row)
  /-- A format that maps no single character. -/
  | none

namespace Mapping

/-- Reads a table. -/
def ofBlock (b : Block) : Option Mapping := do
  match ← b.half? 0 with
  | 0 => return .bytes (← Row.of? b 6 256 1)
  | 2 =>
    let keys ← Row.of? b 6 256 2
    let indices ← (List.range 256).mapM fun i => return (← keys.half? i) / 8
    return .mixed b keys (← Row.of? b keys.stop (indices.foldl max 0 + 1) 8)
  | 4 =>
    let twice ← b.half? 6
    if twice < 2 then failure
    let count := twice / 2
    discard (Row.of? b 14 count 2)
    discard (Row.of? b (16 + count * 2) (count * 3) 2)
    return .segments b count
  | 6 =>
    let first ← b.half? 6
    let count ← b.half? 8
    return .run first (some 0x10000) (← Row.of? b 10 count 2)
  | 8 => return .none
  | 10 =>
    let first ← b.word? 12
    let count ← b.word? 16
    return .run first Option.none (← Row.of? b 20 count 2)
  | 12 => return .groups (← Row.of? b 16 (← b.word? 12) 12)
  | 13 => return .constants (← Row.of? b 16 (← b.word? 12) 12)
  | 14 =>
    discard (Row.of? b 10 (← b.word? 6) 11)
    return .none
  | _ => failure

/-- The glyph of a code in a table of codes of one and two bytes. -/
def glyphOfMixed (b : Block) (keys headers : Row) (code : Nat) : Option Nat := do
  if 0x10000 ≤ code then failure
  let low := code % 256
  let i ← if code < 0xFF then some 0 else (keys.half? (code / 256)).map (· / 8)
  let header ← headers.place? i
  let first ← b.half? header
  let count ← b.half? (header + 2)
  let delta := signed16 (← b.half? (header + 4))
  let offset ← b.half? (header + 6)
  if 0x10000 ≤ first + count || low < first || first + count ≤ low then failure
  let glyph ← b.half? (headers.place + 8 * (i + 1) - 2 + offset + (low - first) * 2)
  if glyph == 0 then failure
  let sum := Int.tmod (glyph + delta) 65536
  if sum < 0 then failure
  return sum.toNat

/-- The glyph of a code in a segment. -/
def glyphInSegment (b : Block) (count i start code : Nat) : Option Nat := do
  let deltas := 16 + count * 4
  let offsets := 16 + count * 6
  let offset ← b.half? (offsets + i * 2)
  let delta ← b.half? (deltas + i * 2)
  if offset == 0 then return (code + delta) % 0x10000
  if offset == 0xFFFF then failure
  let ahead := (code - start) * 2
  if 0x10000 ≤ ahead then failure
  let value ← b.half? ((offsets + i * 2 + ahead + offset) % 0x10000)
  if value == 0 then failure
  let glyph := (value + delta) % 0x10000
  if 0x8000 ≤ glyph then failure
  return glyph

/-- Looks a code up in the segments between two numbers, which are in order. `fuel` is at least
the number of segments. -/
def searchSegments (b : Block) (count code : Nat) : (fuel low high : Nat) → Option Nat
  | 0, _, _ => failure
  | fuel + 1, low, high => do
    if high ≤ low then failure
    let i := (low + high) / 2
    if (← b.half? (14 + i * 2)) < code then searchSegments b count code fuel (i + 1) high
    else
      let start ← b.half? (16 + count * 2 + i * 2)
      if code < start then searchSegments b count code fuel low i
      else glyphInSegment b count i start code

/-- Looks for the group that holds a code, by halving. `fuel` is at least the number of groups. -/
def searchGroups (groups : Row) (code : Nat) : (fuel base size : Nat) → Option Nat
  | 0, _, _ => failure
  | fuel + 1, base, size => do
    if size ≤ 1 then
      let place ← groups.place? base
      let first ← groups.block.word? place
      let last ← groups.block.word? (place + 4)
      if code < first || last < code then failure
      let sum := (← groups.block.word? (place + 8)) + code
      if 0x100000000 ≤ sum || sum < first || 0x10000 ≤ sum - first then failure
      return sum - first
    else
      let half := size / 2
      let place ← groups.place? (base + half)
      let first ← groups.block.word? place
      searchGroups groups code fuel (if code < first then base else base + half) (size - half)

/-- The glyph of the first group that holds a code. -/
def findGroup (groups : Row) (code : Nat) (i : Nat) : (fuel : Nat) → Option Nat
  | 0 => failure
  | fuel + 1 => do
    let place ← groups.place? i
    let first ← groups.block.word? place
    let last ← groups.block.word? (place + 4)
    if first ≤ code && code ≤ last then
      let glyph ← groups.block.word? (place + 8)
      if 0x10000 ≤ glyph then failure
      return glyph
    else findGroup groups code (i + 1) fuel

/-- The glyph of a code. -/
def glyph? (m : Mapping) (code : Nat) : Option Nat :=
  match m with
  | bytes glyphs => do
    let glyph ← glyphs.block.byte? (← glyphs.place? code)
    if glyph == 0 then failure
    return glyph
  | mixed b keys headers => glyphOfMixed b keys headers code
  | segments b count =>
    if 0x10000 ≤ code then failure else searchSegments b count code (count + 1) 0 count
  | run first limit glyphs => do
    if let some limit := limit then
      if limit ≤ code then failure
    if code < first then failure
    glyphs.half? (code - first)
  | groups gs => if gs.count == 0 then failure else searchGroups gs code gs.count 0 gs.count
  | constants gs => findGroup gs code 0 gs.count
  | none => failure

/-- Whether the table can map codes outside the basic plane in the way of Windows. -/
def isFull : Mapping → Bool
  | groups _ | constants _ => true
  | _ => false

end Mapping

/-- A table of a character map: which system it is for, and what it says. -/
structure CharTable where
  platform : Nat
  encoding : Nat
  mapping : Mapping

/-- Whether a table is about Unicode. -/
def CharTable.isUnicode (t : CharTable) : Bool :=
  t.platform == 0 ||
    (t.platform == 3 && (t.encoding == 1 || (t.encoding == 10 && t.mapping.isFull)))

/-- The table that a record points to. -/
def CharTable.ofRecord (b : Block) (place : Nat) : Option CharTable := do
  let platform ← b.half? place
  if 4 < platform then failure
  let encoding ← b.half? (place + 2)
  let table ← b.drop? (← b.word? (place + 4))
  return ⟨platform, encoding, ← Mapping.ofBlock table⟩

/-- The tables of a character map up to the first that cannot be read. -/
def charTables (b : Block) : List CharTable :=
  match b.half? 2 with
  | some count =>
    match Row.of? b 4 count 8 with
    | some records => go records 0 count
    | none => []
  | none => []
where
  /-- The tables from one record on. -/
  go (records : Row) (i : Nat) : Nat → List CharTable
    | 0 => []
    | more + 1 =>
      match (records.place? i).bind (CharTable.ofRecord b) with
      | some t => t :: go records (i + 1) more
      | none => []

/-- Whether a character has a glyph in one of the tables. -/
def hasGlyph (tables : List CharTable) (c : Char) : Bool :=
  tables.any fun t => t.isUnicode && (t.mapping.glyph? c.toNat).isSome

end GlyphTrim.Font
