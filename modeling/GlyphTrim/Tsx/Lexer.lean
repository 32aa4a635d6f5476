import GlyphTrim.Text.Ascii
import GlyphTrim.Text.Identifier
import GlyphTrim.Tsx.Entity
import GlyphTrim.Tsx.Token

/-!
# Reading tokens

`Cursor.next` reads the next token of plain code, in the mode of types or not: in a type the
marks `<` and `>` stand alone. `Cursor.child` reads what comes next between two tags,
`Cursor.attributeValue` what comes after the equals sign of an attribute, and `Cursor.tagName` a
name with hyphens. No reader fails: characters that are no token are a token of their own that
carries the fault.
-/

namespace GlyphTrim.Tsx

open Text (beginsIdentifier continuesIdentifier)

/-- Line breaks of a module. -/
def isBreak (c : Char) : Bool :=
  c == '\n' || c == '\r' || c.toNat == 0x2028 || c.toNat == 0x2029

/-- White space of a module that is no line break. -/
def isSpace (c : Char) : Bool :=
  let n := c.toNat
  n == 9 || n == 11 || n == 12 || n == 0x20 || n == 0xA0 || n == 0xFEFF || n == 0x1680 ||
    (0x2000 ≤ n && n ≤ 0x200A) || n == 0x202F || n == 0x205F || n == 0x3000

namespace Cursor

/-- Passes over the first `n` characters. -/
def advance (c : Cursor) (n : Nat) : Cursor :=
  { rest := c.rest.drop n, place := c.place + n }

/-- The longest run of characters with a property, and the cursor after it. -/
def takeWhile (c : Cursor) (p : Char → Bool) : List Char × Cursor :=
  let run := c.rest.takeWhile p
  (run, { rest := c.rest.dropWhile p, place := c.place + run.length })

end Cursor

/-! ## What stands between tokens -/

/-- Where a skip is. -/
inductive Gap
  /-- Between comments. -/
  | open
  /-- In a comment that ends with the line. -/
  | line
  /-- In a comment that ends with a mark. -/
  | block

/-- Passes over white space and comments; also tells whether a line break was among them. `pass`
counts the characters of a comment mark that are still to be passed. -/
def skip (gap : Gap) (broken : Bool) (pass place : Nat) : List Char → Bool × Cursor
  | [] => (broken, ⟨[], place, false⟩)
  | c :: cs =>
    let stop := (broken, Cursor.mk (c :: cs) place false)
    match pass, gap with
    | pass + 1, _ => skip gap broken pass (place + 1) cs
    | 0, .line =>
      if isBreak c then skip .open true 0 (place + 1) cs else skip .line broken 0 (place + 1) cs
    | 0, .block =>
      if c == '*' && cs.head? == some '/' then skip .open broken 1 (place + 1) cs
      else skip .block (broken || isBreak c) 0 (place + 1) cs
    | 0, .open =>
      if isBreak c then skip .open true 0 (place + 1) cs
      else if isSpace c then skip .open broken 0 (place + 1) cs
      else if c == '/' then
        if cs.head? == some '/' then skip .line broken 1 (place + 1) cs
        else if cs.head? == some '*' then skip .block broken 1 (place + 1) cs
        else stop
      else if c == '<' && cs.take 3 == ['!', '-', '-'] then skip .line broken 3 (place + 1) cs
      else if c == '-' && broken && cs.take 2 == ['-', '>'] then
        skip .line broken 2 (place + 1) cs
      else stop

/-! ## Escapes -/

/-- At most `limit` hexadecimal digits: how many, and their value. -/
def hexRun (limit : Nat) : List Char → Nat × Nat
  | [] => (0, 0)
  | cs => go limit 0 0 cs
where
  /-- Goes on with `count` digits of the value `value` read. -/
  go (limit count value : Nat) : List Char → Nat × Nat
    | [] => (count, value)
    | c :: cs =>
      match limit, Text.hexDigit? c with
      | limit + 1, some d => go limit (count + 1) (value * 16 + d) cs
      | _, _ => (count, value)

/-- Reads what follows `\u`: the number of characters read and the code point, or how far the
digits went and what is wrong. -/
def unicodeEscape (cs : List Char) : Except (Nat × Fault) (Nat × Nat) :=
  match cs with
  | '{' :: ds =>
    let (count, value) := hexRun ds.length ds
    if count == 0 || value > 0x10FFFF then
      .error (count + 1, .badEscape "1-6 hex characters in the range 0 to 10FFFF.")
    else if (ds.drop count).head? == some '}' then .ok (count + 2, value)
    else .error (1, .openUnicodeEscape)
  | ds =>
    let (count, value) := hexRun 4 ds
    if count == 4 then .ok (4, value) else .error (count, .badEscape "4 hex characters")

/-- An octal digit. -/
def octalDigit? (c : Char) : Option Nat :=
  if '0' ≤ c ∧ c ≤ '7' then some (c.toNat - 48) else none

/-- Up to three octal digits that stay below 256: how many, and their value. -/
def octalRun (cs : List Char) : Nat × Nat :=
  match cs with
  | a :: rest =>
    match octalDigit? a, rest with
    | none, _ => (0, 0)
    | some x, [] => (1, x)
    | some x, b :: rest =>
      match octalDigit? b, rest with
      | none, _ => (1, x)
      | some y, [] => (2, x * 8 + y)
      | some y, c :: _ =>
        match octalDigit? c with
        | none => (2, x * 8 + y)
        | some z =>
          if (x * 8 + y) * 8 + z < 256 then (3, (x * 8 + y) * 8 + z) else (2, x * 8 + y)
  | [] => (0, 0)

/-- Reads what follows a backslash: the number of characters read and the code point, if the
escape means one. -/
def escape (inTemplate : Bool) (cs : List Char) : Except Fault (Nat × Option Nat) :=
  match cs with
  | [] => .error .danglingBackslash
  | 'n' :: _ => .ok (1, some 10)
  | 'r' :: _ => .ok (1, some 13)
  | 't' :: _ => .ok (1, some 9)
  | 'b' :: _ => .ok (1, some 8)
  | 'v' :: _ => .ok (1, some 11)
  | 'f' :: _ => .ok (1, some 12)
  | '\r' :: '\n' :: _ => .ok (2, none)
  | 'x' :: ds =>
    let (count, value) := hexRun 2 ds
    if count == 2 then .ok (3, some value) else .error (.badEscape "2 hex characters")
  | 'u' :: ds =>
    match unicodeEscape ds with
    | .ok (n, value) => .ok (n + 1, some value)
    | .error (_, fault) => .error fault
  | c :: ds =>
    if isBreak c then .ok (1, none)
    else if (octalDigit? c).isSome then
      if c == '0' && !(ds.head?.bind octalDigit?).isSome then .ok (1, some 0)
      else if inTemplate then .error .octalEscape
      else
        let (n, value) := octalRun cs
        .ok (n, some value)
    else .ok (1, some c.toNat)

/-- Reads the code points that a text with escapes means, or the first fault. `fuel` exceeds the
number of characters. -/
def codePoints (inTemplate : Bool) (place : Nat) (cs : List Char) :
    (fuel : Nat) → Except Failure (List Nat)
  | 0 => .ok []
  | fuel + 1 =>
    match cs with
    | [] => .ok []
    | '\\' :: ds =>
      match escape inTemplate ds with
      | .error fault => .error ⟨place, fault⟩
      | .ok (n, value) => do
        let more ← codePoints inTemplate (place + 1 + n) (ds.drop n) fuel
        return value.toList ++ more
    | '\r' :: ds =>
      if inTemplate then
        if ds.head? == some '\n' then codePoints inTemplate (place + 1) ds fuel
        else return 10 :: (← codePoints inTemplate (place + 1) ds fuel)
      else return 13 :: (← codePoints inTemplate (place + 1) ds fuel)
    | c :: ds => return c.toNat :: (← codePoints inTemplate (place + 1) ds fuel)

/-- Characters of code points: two halves of a surrogate pair make one character, and a half that
stands alone is replaced. -/
def ofCodePoints : List Nat → List Char
  | hi :: lo :: rest =>
    if 0xD800 ≤ hi ∧ hi < 0xDC00 ∧ 0xDC00 ≤ lo ∧ lo < 0xE000 then
      Char.ofNat (0x10000 + (hi - 0xD800) * 0x400 + (lo - 0xDC00)) :: ofCodePoints rest
    else single hi :: ofCodePoints (lo :: rest)
  | [n] => [single n]
  | [] => []
where
  /-- The character of one code point. -/
  single (n : Nat) : Char :=
    if 0xD800 ≤ n ∧ n < 0xE000 then '\uFFFD' else Char.ofNat n

/-! ## Kinds of tokens -/

/-- The inside of a string up to its closing quote: an escaped character does not close it, and a
line break that is not escaped ends it like the end of the text. -/
def stringBody (quote : Char) : List Char → List Char
  | [] => []
  | '\\' :: '\r' :: '\n' :: cs => '\\' :: '\r' :: '\n' :: stringBody quote cs
  | '\\' :: c :: cs => '\\' :: c :: stringBody quote cs
  | c :: cs => if c == quote || c == '\n' || c == '\r' then [] else c :: stringBody quote cs

/-- A string, after its opening quote. -/
def stringToken (quote : Char) (c : Cursor) : Token × Cursor :=
  let body := stringBody quote c.rest
  let stop := c.advance body.length
  let stop := if stop.rest.head? == some quote then stop.advance 1 else stop
  match codePoints false c.place body (body.length + 1) with
  | .ok points => (.string (String.ofList (ofCodePoints points)), stop)
  | .error failure => (.invalid failure, stop)

/-- The inside of a piece of a template, up to a slot or the closing mark. -/
def chunkBody : List Char → List Char
  | [] => []
  | '\\' :: c :: cs => '\\' :: c :: chunkBody cs
  | '$' :: '{' :: _ => []
  | c :: cs => if c == '`' then [] else c :: chunkBody cs

/-- Text with each line break written as a line feed. -/
def normalizeBreaks : List Char → List Char
  | '\r' :: '\n' :: cs => '\n' :: normalizeBreaks cs
  | '\r' :: cs => '\n' :: normalizeBreaks cs
  | c :: cs => c :: normalizeBreaks cs
  | [] => []

/-- A piece of a template, after the mark at `opening` that it begins with. -/
def templateToken (opening : Nat) (c : Cursor) : Token × Cursor :=
  let body := chunkBody c.rest
  let stop := c.advance body.length
  match stop.rest with
  | [] => (.invalid ⟨opening, .openTemplate⟩, stop)
  | mark :: _ =>
    let points := codePoints true c.place body (body.length + 1)
    let cooked := points.map fun p => String.ofList (ofCodePoints p)
    let last := mark == '`'
    (.template ⟨cooked, String.ofList (normalizeBreaks body), last⟩,
      stop.advance (if last then 1 else 2))

/-- The characters of a word: its name, how many characters wrote it, and whether one of them was
written as an escape. `fuel` exceeds the number of characters. -/
def wordBody (place : Nat) (cs : List Char) : (fuel : Nat) → Except Failure (List Char × Nat × Bool)
  | 0 => .ok ([], 0, false)
  | fuel + 1 =>
    match cs with
    | [] => .ok ([], 0, false)
    | '\\' :: 'u' :: ds =>
      match unicodeEscape ds with
      | .error (n, fault) => .error ⟨place + 2 + n, fault⟩
      | .ok (n, value) => do
        let (name, more, _) ← wordBody (place + 2 + n) (ds.drop n) fuel
        return (ofCodePoints [value] ++ name, n + 2 + more, true)
    | '\\' :: _ => .error ⟨place, .escapeExpected⟩
    | c :: ds =>
      if continuesIdentifier c then do
        let (name, more, escaped) ← wordBody (place + 1) ds fuel
        return (c :: name, more + 1, escaped)
      else .ok ([], 0, false)

/-- An identifier or a keyword. -/
def wordToken (c : Cursor) : Token × Cursor :=
  let (run, stop) := c.takeWhile continuesIdentifier
  if stop.rest.head? == some '\\' then
    match wordBody c.place c.rest (c.rest.length + 1) with
    | .error failure => (.invalid failure, stop.advance 1)
    | .ok (name, n, escaped) =>
      let name := String.ofList name
      if escaped && reservedWords.contains name then
        (.invalid ⟨c.place, .escapedReservedWord name⟩, c.advance n)
      else (.word name, c.advance n)
  else (.word (String.ofList run), stop)

/-- Digits of a radix, with separators. -/
def isDigitOf (radix : Nat) (c : Char) : Bool :=
  match Text.hexDigit? c with
  | some d => d < radix
  | none => c == '_'

/-- The end of a number: a suffix, but no identifier without a gap. -/
def numberEnd (bigint : Bool) (c : Cursor) : Token × Cursor :=
  let (token, c) :=
    if bigint && c.rest.head? == some 'n' then (Token.bigint, c.advance 1) else (Token.number, c)
  match c.rest with
  | d :: _ =>
    if beginsIdentifier d || d == '\\' then (.invalid ⟨c.place, .identifierAfterNumber⟩, c)
    else (token, c)
  | [] => (token, c)

/-- A number with a radix mark of two characters. -/
def radixNumber (radix : Nat) (c : Cursor) : Token × Cursor :=
  let c := c.advance 2
  let (digits, stop) := c.takeWhile (isDigitOf radix)
  if digits.isEmpty then (.invalid ⟨c.place, .digitExpected radix⟩, c) else numberEnd true stop

/-- The exponent of a decimal number, if there is one. -/
def exponent (c : Cursor) : Except Failure (Bool × Cursor) :=
  match c.rest with
  | e :: rest =>
    if e == 'e' || e == 'E' then
      let c := c.advance 1
      match rest with
      | [] => .error ⟨c.place, .exponentExpected⟩
      | sign :: _ =>
        let c := if sign == '+' || sign == '-' then c.advance 1 else c
        let (digits, stop) := c.takeWhile (isDigitOf 10)
        if digits.isEmpty then .error ⟨c.place, .digitExpected 10⟩ else .ok (true, stop)
    else .ok (false, c)
  | [] => .ok (false, c)

/-- A decimal number. -/
def decimalNumber (c : Cursor) : Token × Cursor :=
  let (_, c) := c.takeWhile (isDigitOf 10)
  let fraction := c.rest.head? == some '.'
  let c := if fraction then ((c.advance 1).takeWhile (isDigitOf 10)).2 else c
  match exponent c with
  | .error failure => (.invalid failure, c)
  | .ok (found, c) => numberEnd (!fraction && !found) c

/-- A number. -/
def numberToken (c : Cursor) : Token × Cursor :=
  match c.rest with
  | '0' :: r :: _ =>
    if r == 'x' || r == 'X' then radixNumber 16 c
    else if r == 'o' || r == 'O' then radixNumber 8 c
    else if r == 'b' || r == 'B' then radixNumber 2 c
    else decimalNumber c
  | _ => decimalNumber c

/-- The inside of a regular expression up to its closing slash, if it has one on its line. A slash
in a class, or after a backslash, does not close it. -/
def regexpLength (inClass : Bool) : List Char → Option Nat
  | [] => none
  | '\\' :: c :: cs => if isBreak c then none else (regexpLength inClass cs).map (· + 2)
  | c :: cs =>
    if isBreak c then none
    else if c == '/' && !inClass then some 0
    else
      (regexpLength (if c == '[' then true else if c == ']' then false else inClass) cs).map (· + 1)

/-- A regular expression, from its opening slash. One that is not closed is read again by every
reader that comes after. -/
def regexpToken (c : Cursor) : Token × Cursor :=
  match regexpLength false (c.rest.drop 1) with
  | some n => (.regexp, ((c.advance (n + 2)).takeWhile continuesIdentifier).2)
  | none => (.invalid ⟨c.place, .openRegexp⟩, { c with regexp := true })

/-- The marks, longer ones before their beginnings. -/
def marks : List (List Char) :=
  [">>>=", "...", "===", "!==", "**=", "<<=", ">>=", ">>>", "&&=", "||=", "??=", "=>", "==", "!=",
    "<=", ">=", "&&", "||", "??", "?.", "++", "--", "+=", "-=", "*=", "/=", "%=", "&=", "|=",
    "^=", "<<", ">>", "**", "\x7b", "\x7d", "(", ")", "[", "]", ".", ";", ",", "<", ">", "+", "-",
    "*", "/", "%", "&", "|", "^", "!", "~", "?", ":", "=", "@", "#"].map String.toList

/-- The longest mark at the start of the text. A question mark and a dot in front of a digit are
two marks, and in a type the marks `<` and `>` stand alone. -/
def mark? (inType : Bool) (cs : List Char) : Option (List Char) :=
  match cs with
  | '<' :: _ => if inType then some ['<'] else longest
  | '>' :: _ => if inType then some ['>'] else longest
  | '?' :: '.' :: d :: _ => if d.isDigit then some ['?'] else longest
  | _ => longest
where
  /-- The longest mark without regard to the mode. -/
  longest : Option (List Char) := marks.find? (·.isPrefixOf cs)

namespace Cursor

/-- The token that begins here; white space and comments are passed. -/
def token (inType : Bool) (c : Cursor) : Token × Cursor :=
  match c.rest with
  | [] => (.eof, c)
  | d :: ds =>
    if beginsIdentifier d || d == '\\' then wordToken c
    else if d.isDigit || (d == '.' && (ds.head?.map Char.isDigit).getD false) then numberToken c
    else if d == '"' || d == '\'' then stringToken d (c.advance 1)
    else if d == '`' then templateToken c.place (c.advance 1)
    else
      match mark? inType c.rest with
      | some m => (.mark (String.ofList m), c.advance m.length)
      | none => (.invalid ⟨c.place, .unexpectedCharacter d⟩, c.advance 1)

/-- The next token of plain code. -/
def next (inType : Bool) (c : Cursor) : Lexeme :=
  if c.regexp then
    let (token, stop) := regexpToken c
    ⟨token, c, stop, false⟩
  else
    let (broken, start) := skip .open false 0 c.place c.rest
    let (token, stop) := start.token inType
    ⟨token, start, stop, broken⟩

/-- The first token of the text, in front of which a line break is supposed. A first line that
begins with `#!` is a comment. -/
def first (text : List Char) : Lexeme :=
  let c : Cursor :=
    match text with
    | '#' :: '!' :: cs => (Cursor.takeWhile ⟨cs, 2, false⟩ (!isBreak ·)).2
    | cs => ⟨cs, 0, false⟩
  let (_, start) := skip .open true 0 c.place c.rest
  let (token, stop) := start.token false
  ⟨token, start, stop, true⟩

/-- What comes next between two tags. -/
def child (c : Cursor) : Lexeme :=
  let (token, stop) : Token × Cursor :=
    match c.rest with
    | [] => (.eof, c)
    | '<' :: '/' :: _ => (.mark "</", c.advance 2)
    | '<' :: _ => (.mark "<", c.advance 1)
    | '{' :: _ => (.mark "\x7b", c.advance 1)
    | _ => (.tagText, (c.takeWhile fun d => d != '<' && d != '{').2)
  ⟨token, c, stop, false⟩

/-- What comes after the equals sign of an attribute. Quoted text has entities and no escapes. -/
def attributeValue (c : Cursor) : Lexeme :=
  let (broken, start) := skip .open false 0 c.place c.rest
  match start.rest with
  | q :: _ =>
    if q == '"' || q == '\'' then
      let (body, stop) := (start.advance 1).takeWhile (· != q)
      ⟨.string (String.ofList (Entity.decode body)), start, stop.advance 1, broken⟩
    else c.next false
  | [] => c.next false

/-- A name with hyphens that begins here. -/
def tagName (c : Cursor) : Lexeme :=
  let (name, stop) := c.takeWhile fun d => continuesIdentifier d || d == '-'
  ⟨.tagName (String.ofList name), c, stop, false⟩

/-- A regular expression that begins here. -/
def regexpAt (c : Cursor) : Lexeme :=
  { c with regexp := true }.next false

/-- A piece of a template that begins with the brace that closes a slot. -/
def templateRest (c : Cursor) : Lexeme :=
  let (token, stop) := templateToken c.place (c.advance 1)
  ⟨token, c, stop, false⟩

end Cursor

end GlyphTrim.Tsx
