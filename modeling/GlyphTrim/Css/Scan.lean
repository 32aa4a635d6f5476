import GlyphTrim.Text.Ascii

/-!
# Scanning the characters of a stylesheet

How many characters a name, a string, an address or a number takes. A scan goes over the text one
character at a time; where one character decides about the next few, it passes those by a count.
-/

namespace GlyphTrim.Css

open Text (isHexDigit hexNumber)

/-- Line breaks of a stylesheet. -/
def isBreak (c : Char) : Bool := c == '\n' || c == '\r' || c == '\x0C'

/-- White space of a stylesheet. -/
def isSpace (c : Char) : Bool := c == ' ' || c == '\t' || isBreak c

/-- Whether the text begins with a line break. -/
def startsBreak : List Char → Bool
  | c :: _ => isBreak c
  | [] => false

/-- How many characters the line break or the white space at the start takes: a carriage return
and a line feed are one. -/
def breakLength : List Char → Nat
  | '\r' :: '\n' :: _ => 2
  | _ :: _ => 1
  | [] => 0

/-! ## Escapes -/

/-- The hexadecimal digits of an escape: six at most. -/
def escapeDigits (cs : List Char) : List Char := (cs.take 6).takeWhile isHexDigit

/-- How many characters an escape takes after its backslash. Digits take the one white space
behind them along. -/
def escapeLength (cs : List Char) : Nat :=
  let digits := escapeDigits cs
  if digits.isEmpty then min 1 cs.length
  else
    match cs.drop digits.length with
    | c :: rest => digits.length + if isSpace c then breakLength (c :: rest) else 0
    | [] => digits.length

/-- The character that an escape means, from the text after its backslash. -/
def escapeChar (cs : List Char) : Char :=
  let digits := escapeDigits cs
  if digits.isEmpty then
    match cs with
    | c :: _ => if c == '\x00' then '\uFFFD' else c
    | [] => '\uFFFD'
  else
    let n := hexNumber digits
    if n == 0 || 0x10FFFF < n || (0xD800 ≤ n && n < 0xE000) then '\uFFFD' else Char.ofNat n

/-! ## Names -/

/-- Characters that begin a name. -/
def beginsName (c : Char) : Bool :=
  c.isAlpha || c == '_' || c == '\x00' || 128 ≤ c.toNat

/-- Characters that go on with a name. -/
def continuesName (c : Char) : Bool := beginsName c || c.isDigit || c == '-'

/-- Whether the text begins with a name. -/
def atName : List Char → Bool
  | '-' :: c :: _ => beginsName c || c == '-' || c == '\\'
  | '\\' :: cs => !startsBreak cs
  | c :: _ => beginsName c
  | [] => false

/-- How many characters a name takes. -/
def nameLength (pass : Nat) : List Char → Nat
  | [] => 0
  | c :: cs =>
    match pass with
    | pass + 1 => nameLength pass cs + 1
    | 0 =>
      if continuesName c then nameLength 0 cs + 1
      else if c == '\\' && !startsBreak cs then nameLength (escapeLength cs) cs + 1
      else 0

/-- The name, with its escapes replaced. -/
def nameText (pass : Nat) : List Char → List Char
  | [] => []
  | c :: cs =>
    match pass with
    | pass + 1 => nameText pass cs
    | 0 =>
      if continuesName c then c :: nameText 0 cs
      else if c == '\\' && !startsBreak cs then escapeChar cs :: nameText (escapeLength cs) cs
      else []

/-- Whether the text begins with the name `url` in any spelling. -/
def isUrlName (cs : List Char) : Bool :=
  (nameText 0 cs).map Char.toLower == ['u', 'r', 'l']

/-! ## Strings -/

/-- How many characters the escape in a string takes after its backslash. -/
def stringEscapeLength (cs : List Char) : Nat :=
  if startsBreak cs then breakLength cs else escapeLength cs

/-- How many characters a string takes after its opening quote, and whether a line break cuts it
off. The end of the text closes it. -/
def stringLength (quote : Char) (pass : Nat) : List Char → Nat × Bool
  | [] => (0, false)
  | c :: cs =>
    let more (pass : Nat) : Nat × Bool :=
      let (n, bad) := stringLength quote pass cs
      (n + 1, bad)
    match pass with
    | pass + 1 => more pass
    | 0 =>
      if c == quote then (1, false)
      else if isBreak c then (0, true)
      else if c == '\\' then more (stringEscapeLength cs)
      else more 0

/-- The text of a string that a line break cuts off, with its escapes replaced. -/
def stringText (quote : Char) (pass : Nat) : List Char → List Char
  | [] => []
  | c :: cs =>
    match pass with
    | pass + 1 => stringText quote pass cs
    | 0 =>
      if c == quote || isBreak c then []
      else if c == '\\' then
        if cs.isEmpty || startsBreak cs then stringText quote (breakLength cs) cs
        else escapeChar cs :: stringText quote (escapeLength cs) cs
      else (if c == '\x00' then '\uFFFD' else c) :: stringText quote 0 cs

/-! ## Addresses -/

/-- Characters that cannot stand in an address without quotes. -/
def spoilsUrl (c : Char) : Bool :=
  let n := c.toNat
  (1 ≤ n && n ≤ 8) || n == 0xB || (0xE ≤ n && n ≤ 0x1F) || n == 0x7F || c == '"' || c == '\'' ||
    c == '('

/-- How many characters a spoilt address takes, up to its closing parenthesis. -/
def badUrlLength (pass : Nat) : List Char → Nat
  | [] => 0
  | c :: cs =>
    match pass with
    | pass + 1 => badUrlLength pass cs + 1
    | 0 =>
      if c == ')' then 0
      else if c == '\\' && (cs.head? == some ')' || cs.head? == some '\\') then
        badUrlLength 1 cs + 1
      else badUrlLength 0 cs + 1

/-- How many characters an address takes after white space in it, up to its closing parenthesis,
and whether it is spoilt. -/
def urlEndLength : List Char → Nat × Bool
  | [] => (0, false)
  | c :: cs =>
    if c == ')' then (0, false)
    else if isSpace c then
      let (n, bad) := urlEndLength cs
      (n + 1, bad)
    else (badUrlLength 0 cs + 1, true)

/-- How many characters an address takes, up to its closing parenthesis, and whether it is
spoilt. -/
def urlLength (pass : Nat) : List Char → Nat × Bool
  | [] => (0, false)
  | c :: cs =>
    let more (pass : Nat) : Nat × Bool :=
      let (n, bad) := urlLength pass cs
      (n + 1, bad)
    match pass with
    | pass + 1 => more pass
    | 0 =>
      if c == ')' then (0, false)
      else if isSpace c then
        let (n, bad) := urlEndLength cs
        (n + 1, bad)
      else if spoilsUrl c then (badUrlLength 0 cs + 1, true)
      else if c == '\\' then
        if startsBreak cs then (badUrlLength 0 cs + 1, true) else more (escapeLength cs)
      else more 0

/-! ## Numbers and comments -/

/-- How many digits the text begins with. -/
def digitRun (cs : List Char) : Nat := (cs.takeWhile Char.isDigit).length

/-- Whether the text begins with a digit. -/
def startsDigit : List Char → Bool
  | c :: _ => c.isDigit
  | [] => false

/-- How many characters the fraction of a number takes. -/
def fractionLength : List Char → Nat
  | '.' :: cs => if startsDigit cs then digitRun cs + 1 else 0
  | _ => 0

/-- How many characters the exponent of a number takes. -/
def exponentLength : List Char → Nat
  | e :: cs =>
    if e == 'e' || e == 'E' then
      match cs with
      | c :: ds =>
        if c.isDigit then digitRun cs + 1
        else if (c == '+' || c == '-') && startsDigit ds then digitRun ds + 2
        else 0
      | [] => 0
    else 0
  | [] => 0

/-- How many characters the unit of a number takes. -/
def unitLength (cs : List Char) : Nat :=
  if cs.head? == some '%' then 1 else if atName cs then nameLength 0 cs else 0

/-- How many characters a number takes, with its unit. The sign has been passed. -/
def numberLength (cs : List Char) : Nat :=
  let whole := digitRun cs
  let cs := cs.drop whole
  let fraction := fractionLength cs
  let cs := cs.drop fraction
  let exponent := exponentLength cs
  whole + fraction + exponent + unitLength (cs.drop exponent)

/-- How many characters a comment takes after the mark that opens it. -/
def commentLength : List Char → Nat
  | [] => 0
  | '*' :: '/' :: _ => 2
  | _ :: cs => commentLength cs + 1

end GlyphTrim.Css
