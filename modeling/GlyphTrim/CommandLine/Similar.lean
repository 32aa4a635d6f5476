/-!
# Similar words

When a word is not known, a similar one may be meant. The similarity of two words grows with the
characters that they share at about the same place, and with the order of these characters: if
`m` characters of words of `a` and `b` characters match, and `t` pairs of them are out of order,
it is the mean of `m / a`, `m / b` and `(m - t) / m`. Words are similar above seven tenths.
-/

namespace GlyphTrim.CommandLine

/-- What a match has found: the matched characters of the first word, and the places of the second
word that they took. -/
structure Matching where
  chars : List Char := []
  places : List Nat := []

/-- How far apart matching characters may stand. -/
def reach (a b : List Char) : Nat := max a.length b.length / 2 - 1

/-- Matches a character at a place with the first free place of a word within reach. -/
def Matching.add (b : List Char) (reach : Nat) (m : Matching) (c : Char) (i : Nat) : Matching :=
  let free (j : Nat) : Bool :=
    i - reach ≤ j && j ≤ i + reach && b[j]? == some c && !m.places.contains j
  match (List.range b.length).find? free with
  | some j => ⟨m.chars ++ [c], j :: m.places⟩
  | none => m

/-- The matches of a word in another one. -/
def matching (a b : List Char) : Matching :=
  a.zipIdx.foldl (fun m (c, i) => m.add b (reach a b) c i) {}

/-- The number of matches, and of pairs out of order. -/
def matchCounts (a b : List Char) : Nat × Nat :=
  let m := matching a b
  let other := b.zipIdx.filterMap fun (c, j) => if m.places.contains j then some c else none
  (m.chars.length, ((m.chars.zip other).filter fun (c, d) => c != d).length / 2)

/-- The similarity of two words, as a fraction. -/
def similarity (s t : String) : Nat × Nat :=
  let a := s.toList
  let b := t.toList
  let (m, pairs) := matchCounts a b
  if a.isEmpty && b.isEmpty then (1, 1)
  else if m = 0 then (0, 1)
  else
    (m * m * b.length + m * m * a.length + (m - pairs) * a.length * b.length,
      3 * a.length * b.length * m)

/-- Whether a fraction is larger than another one. -/
def exceeds (x y : Nat × Nat) : Bool := y.1 * x.2 < x.1 * y.2

/-- The words similar to a word, the most similar first. -/
def similarWords (word : String) (known : List String) : List String :=
  let found := (known.map fun k => (similarity word k, k)).filter fun e => exceeds e.1 (7, 10)
  (found.mergeSort fun x y => !exceeds y.1 x.1).map (·.2)

end GlyphTrim.CommandLine
