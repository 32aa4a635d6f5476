import GlyphTrim.Css.Scan

/-!
# Tokens of a stylesheet

The text of a stylesheet falls into tokens, one after the other and without gaps. For a stylesheet
of icons it matters where a statement or a bracket begins and ends, so names, numbers and marks
are all of one kind.
-/

namespace GlyphTrim.Css

/-- Kinds of brackets. -/
inductive Bracket
  | round
  | square
  | curly
  deriving Repr, DecidableEq

/-- The closing mark of a bracket. -/
def Bracket.closing : Bracket → Char
  | round => ')'
  | square => ']'
  | curly => '\x7d'

/-- Kinds of tokens. -/
inductive Kind
  | space
  | comment
  | string
  /-- A string that a line break cuts off, and its text. -/
  | badString (text : String)
  /-- An address that is spoilt, and what stands between its parentheses. -/
  | badUrl (contents : String)
  | semicolon
  /-- A bracket that opens, perhaps after the name of a function. -/
  | opening (b : Bracket)
  | closing (b : Bracket)
  /-- Names, numbers, addresses and marks. -/
  | other
  deriving Repr, DecidableEq

/-- A place in a stylesheet. -/
structure Location where
  /-- The number of line breaks before the place. -/
  breaks : Nat
  /-- The number of 16-bit units between the last line break and the place. -/
  units : Nat
  deriving Repr, DecidableEq

/-- The 16-bit units of a character. -/
def unitsOf (c : Char) : Nat := if 0x10000 ≤ c.toNat then 2 else 1

/-- The place after a text. -/
def Location.advance (l : Location) : List Char → Location
  | [] => l
  | '\r' :: '\n' :: cs => Location.advance ⟨l.breaks + 1, 0⟩ cs
  | c :: cs =>
    if isBreak c then Location.advance ⟨l.breaks + 1, 0⟩ cs
    else Location.advance ⟨l.breaks, l.units + unitsOf c⟩ cs

/-- A token: its kind, its text, and where it begins. -/
structure Token where
  kind : Kind
  text : List Char
  location : Location
  deriving Repr, DecidableEq

/-- A token that is a string, after its opening quote. -/
def readString (quote : Char) (cs : List Char) : Kind × Nat :=
  let (n, bad) := stringLength quote 0 cs
  if bad then (.badString (String.ofList (stringText quote 0 cs)), n) else (.string, n)

/-- A token that is an address, after its opening parenthesis; none if a quote opens a string
there. -/
def readUrl (cs : List Char) : Option (Kind × Nat) :=
  let spaces := (cs.takeWhile isSpace).length
  let cs := cs.drop spaces
  match cs with
  | '"' :: _ | '\'' :: _ => none
  | _ =>
    let (n, bad) := urlLength 0 cs
    let closing := if (cs.drop n).isEmpty then 0 else 1
    some (if bad then .badUrl (String.ofList (cs.take n)) else .other, spaces + n + closing)

/-- A token that begins with a name: a name, a function or an address. The number counts the
characters after the first. -/
def readName (c : Char) (cs : List Char) : Kind × Nat :=
  let n := nameLength 0 (c :: cs) - 1
  match cs.drop n with
  | '(' :: rest =>
    if isUrlName (c :: cs) then
      match readUrl rest with
      | some (kind, more) => (kind, n + 1 + more)
      | none => (.opening .round, n + 1)
    else (.opening .round, n + 1)
  | _ => (.other, n)

/-- Whether a number begins after a sign. -/
def startsNumber : List Char → Bool
  | '.' :: cs => startsDigit cs
  | cs => startsDigit cs

/-- Reads the token that begins with the character `c`: its kind, and how many of the characters
`cs` after `c` belong to it. -/
def read (c : Char) (cs : List Char) : Kind × Nat :=
  if isSpace c then (.space, (cs.takeWhile isSpace).length)
  else if c == '"' || c == '\'' then readString c cs
  else if c == '(' then (.opening .round, 0)
  else if c == '[' then (.opening .square, 0)
  else if c == '\x7b' then (.opening .curly, 0)
  else if c == ')' then (.closing .round, 0)
  else if c == ']' then (.closing .square, 0)
  else if c == '\x7d' then (.closing .curly, 0)
  else if c == ';' then (.semicolon, 0)
  else if c == '/' && cs.head? == some '*' then (.comment, commentLength (cs.drop 1) + 1)
  else if c == '#' then
    match cs with
    | d :: _ =>
      if atName cs || d.isDigit || d == '-' then (.other, nameLength 0 cs) else (.other, 0)
    | [] => (.other, 0)
  else if c == '@' then (.other, if atName cs then nameLength 0 cs else 0)
  else if c.isDigit then (.other, numberLength (c :: cs) - 1)
  else if c == '.' then (.other, if startsDigit cs then numberLength (c :: cs) - 1 else 0)
  else if c == '+' then (.other, if startsNumber cs then numberLength cs else 0)
  else if c == '<' && cs.take 3 == ['!', '-', '-'] then (.other, 3)
  else if c == '-' then
    if startsNumber cs then (.other, numberLength cs)
    else if cs.take 2 == ['-', '>'] then (.other, 2)
    else if atName (c :: cs) then readName c cs
    else (.other, 0)
  else if atName (c :: cs) then readName c cs
  else (.other, 0)

/-- The tokens of a text that begins at a place. -/
def tokensFrom (l : Location) : List Char → List Token
  | [] => []
  | c :: cs =>
    let (kind, n) := read c cs
    let text := c :: cs.take n
    ⟨kind, text, l⟩ :: tokensFrom (l.advance text) (cs.drop n)
  termination_by cs => cs.length
  decreasing_by simp only [List.length_drop, List.length_cons]; omega

/-- The tokens of a text. -/
def tokens (cs : List Char) : List Token := tokensFrom ⟨0, 0⟩ cs

/-- The text of tokens. -/
def sourceText (ts : List Token) : List Char := ts.flatMap (·.text)

/-- The tokens of a text cover it. -/
theorem sourceText_tokensFrom (l : Location) (cs : List Char) :
    sourceText (tokensFrom l cs) = cs := by
  induction l, cs using tokensFrom.induct with
  | case1 => simp [tokensFrom, sourceText]
  | case2 l c cs kind n h text ih =>
    rw [tokensFrom]
    simp only [h]
    simp only [sourceText, List.flatMap_cons] at ih ⊢
    rw [ih]
    simp

end GlyphTrim.Css
