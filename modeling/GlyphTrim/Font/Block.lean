/-!
# Blocks of a font

A font is a byte string in which blocks point to one another. Numbers in it have their high bytes
first. Whatever lies outside a block cannot be read.
-/

namespace GlyphTrim.Font

/-- A part of a byte string. -/
structure Block where
  bytes : ByteArray
  start : Nat
  size : Nat

namespace Block

/-- A whole byte string. -/
def ofBytes (bytes : ByteArray) : Block := ⟨bytes, 0, bytes.size⟩

/-- The block without its first bytes, of which there have to be so many. -/
def drop? (b : Block) (n : Nat) : Option Block :=
  if n ≤ b.size then some ⟨b.bytes, b.start + n, b.size - n⟩ else none

/-- The bytes from one place to another. -/
def slice? (b : Block) (start size : Nat) : Option Block :=
  if start + size ≤ b.size then some ⟨b.bytes, b.start + start, size⟩ else none

/-- The number that `count` bytes from a place on write. -/
def number? (b : Block) (count place : Nat) : Option Nat :=
  if place + count ≤ b.size then
    (List.range count).foldlM (fun n i => (b.bytes[b.start + place + i]?).map (n * 256 + ·.toNat)) 0
  else none

/-- The byte at a place. -/
def byte? (b : Block) (place : Nat) : Option Nat := b.number? 1 place

/-- The number of two bytes at a place. -/
def half? (b : Block) (place : Nat) : Option Nat := b.number? 2 place

/-- The number of four bytes at a place. -/
def word? (b : Block) (place : Nat) : Option Nat := b.number? 4 place

end Block

/-- A row of records of one size in a block. -/
structure Row where
  block : Block
  place : Nat
  count : Nat
  size : Nat

namespace Row

/-- A row that lies in its block. -/
def of? (block : Block) (place count size : Nat) : Option Row :=
  if place + count * size ≤ block.size then some ⟨block, place, count, size⟩ else none

/-- Where a record of the row begins. -/
def place? (r : Row) (i : Nat) : Option Nat :=
  if i < r.count then some (r.place + i * r.size) else none

/-- The place after the row. -/
def stop (r : Row) : Nat := r.place + r.count * r.size

/-- The number of two bytes of a record. -/
def half? (r : Row) (i : Nat) : Option Nat := do r.block.half? (← r.place? i)

end Row

/-- The number that two bytes write if the highest bit is a sign. -/
def signed16 (n : Nat) : Int := if n < 0x8000 then n else (n : Int) - 0x10000

end GlyphTrim.Font
