import GlyphTrim.Json.Fault
import GlyphTrim.Text.Ascii

/-!
# Reading JSON

`Document.ofText` reads the text of an object. The text is read from the front; a reader returns
what it read and the rest of the text. Values may be nested to a bound, and the readers of values
recurse on a number that exceeds the length of the text.
-/

namespace GlyphTrim

namespace Json

/-- A cause, and the bytes of the text behind its place. -/
structure Stop where
  fault : JsonFault
  left : Nat

/-- The bytes of a text. -/
def size (cs : List Char) : Nat := (String.ofList cs).utf8ByteSize

/-- Stops in front of a text. -/
def stop {α : Type} (fault : JsonFault) (cs : List Char) : Except Stop α :=
  .error ⟨fault, size cs⟩

/-- Stops behind the first bytes of a text. -/
def stopIn {α : Type} (fault : JsonFault) (bytes : Nat) (cs : List Char) : Except Stop α :=
  .error ⟨fault, size cs - bytes⟩

/-- White space between tokens. -/
def isSpace (c : Char) : Bool := c == ' ' || c == '\n' || c == '\t' || c == '\r'

/-- A text without the white space in front. -/
def skipSpace (cs : List Char) : List Char := cs.dropWhile isSpace

/-! ## Strings -/

/-- The number that four hexadecimal digits at the start of a text write. -/
def hexFour (cs : List Char) : Except Stop Nat :=
  let digits := cs.take 4
  if digits.length = 4 && digits.all Text.isHexDigit then .ok (Text.hexNumber digits)
  else if size cs < 4 then .error ⟨.endInString, 0⟩
  else stopIn .invalidEscape 4 cs

/-- The character of an escape by number, from the text behind its `u`, and how many characters of
the text it takes. Two numbers make one character if the first leads a pair. -/
def unicodeEscape (cs : List Char) : Except Stop (Char × Nat) := do
  let n ← hexFour cs
  if 0xDC00 ≤ n && n ≤ 0xDFFF then stopIn .loneSurrogate 4 cs
  else if n < 0xD800 || 0xDBFF < n then return (Char.ofNat n, 4)
  else
    match cs.drop 4 with
    | [] => .error ⟨.endInString, 0⟩
    | ['\\'] => .error ⟨.endInString, 0⟩
    | '\\' :: 'u' :: rest =>
      let low ← hexFour rest
      if low < 0xDC00 || 0xDFFF < low then stopIn .loneSurrogate 4 rest
      else return (Char.ofNat ((n - 0xD800) * 0x400 + (low - 0xDC00) + 0x10000), 10)
    | '\\' :: rest => stopIn .unfinishedPair 1 rest
    | rest => stopIn .unfinishedPair 1 rest

/-- The character of an escape, from the text behind its backslash, and how many characters of the
text it takes. -/
def escape (cs : List Char) : Except Stop (Char × Nat) :=
  match cs with
  | [] => .error ⟨.endInString, 0⟩
  | '"' :: _ => .ok ('"', 1)
  | '\\' :: _ => .ok ('\\', 1)
  | '/' :: _ => .ok ('/', 1)
  | 'b' :: _ => .ok ('\x08', 1)
  | 'f' :: _ => .ok ('\x0C', 1)
  | 'n' :: _ => .ok ('\n', 1)
  | 'r' :: _ => .ok ('\r', 1)
  | 't' :: _ => .ok ('\t', 1)
  | 'u' :: rest => do
    let (c, n) ← unicodeEscape rest
    return (c, n + 1)
  | cs => stopIn .invalidEscape 1 cs

/-- Reads a string behind its opening quote. The first `skip` characters are already read. -/
def stringBody (skip : Nat) : List Char → Except Stop (List Char × List Char)
  | [] => .error ⟨.endInString, 0⟩
  | c :: cs =>
    match skip with
    | skip + 1 => stringBody skip cs
    | 0 =>
      if c == '"' then .ok ([], cs)
      else if c == '\\' then do
        let (e, n) ← escape cs
        let (more, rest) ← stringBody n cs
        return (e :: more, rest)
      else if c.toNat < 0x20 then stop .controlCharacter cs
      else do
        let (more, rest) ← stringBody 0 cs
        return (c :: more, rest)

/-- Reads a string behind its opening quote. -/
def readString (cs : List Char) : Except Stop (String × List Char) := do
  let (text, rest) ← stringBody 0 cs
  return (String.ofList text, rest)

/-! ## Numbers -/

/-- The largest whole number that is exact. -/
def wordBound : Nat := Nat.pow 2 64 - 1

/-- The largest exponent that is read. -/
def exponentBound : Nat := Nat.pow 2 31 - 1

/-- A number with digits more, up to a bound, and how many digits would exceed it. -/
def appendDigits (bound n : Nat) : List Char → Nat × Nat
  | [] => (n, 0)
  | c :: cs =>
    let next := n * 10 + (c.toNat - 48)
    if next ≤ bound then appendDigits bound next cs else (n, cs.length + 1)

/-- The number `significand * 10 ^ exponent`, rounded at each step: the significand first, then
its product with a power of ten, or its quotient by one, or by several. -/
def scale? (significand : Binary64) (exponent : Int) : Nat → Option Binary64
  | 0 => some significand
  | fuel + 1 =>
    if exponent.natAbs ≤ 308 then
      let power := Binary64.powerOfTen exponent.natAbs
      if 0 ≤ exponent then significand.mul? power else some (significand.div power)
    else if significand.mantissa = 0 then some significand
    else if 0 ≤ exponent then none
    else scale? (significand.div (Binary64.powerOfTen 308)) (exponent + 308) fuel

/-- A rounded number, with the rest of the text. -/
def real (negative : Bool) (significand : Nat) (exponent : Int) (rest : List Char) :
    Except Stop (JsonNumber × List Char) :=
  match scale? (Binary64.ofNat significand) exponent 8 with
  | some x => .ok (.real negative x, rest)
  | none => stop .numberOutOfRange rest

/-- Reads an exponent behind its `e`. -/
def readExponent (negative : Bool) (significand : Nat) (start : Int) (cs : List Char) :
    Except Stop (JsonNumber × List Char) :=
  let (down, cs) :=
    match cs with
    | '+' :: rest => (false, rest)
    | '-' :: rest => (true, rest)
    | cs => (false, cs)
  let digits := cs.takeWhile Char.isDigit
  let rest := cs.dropWhile Char.isDigit
  match cs, digits with
  | [], _ => stop .endInValue []
  | _, [] => stopIn .invalidNumber 1 cs
  | _, digits =>
    let (e, spare) := appendDigits exponentBound 0 digits
    if spare = 0 then real negative significand (if down then start - e else start + e) rest
    else if significand ≠ 0 && !down then
      stop .numberOutOfRange (cs.drop (digits.length - spare + 1))
    else .ok (.real negative Binary64.zero, rest)

/-- Goes on with an exponent, if there is one. -/
def afterDigits (negative : Bool) (significand : Nat) (exponent : Int) (cs : List Char) :
    Except Stop (JsonNumber × List Char) :=
  match cs with
  | 'e' :: rest | 'E' :: rest => readExponent negative significand exponent rest
  | cs => real negative significand exponent cs

/-- Reads the digits behind a point. -/
def readFraction (negative : Bool) (significand : Nat) (exponent : Int) (cs : List Char) :
    Except Stop (JsonNumber × List Char) :=
  let digits := cs.takeWhile Char.isDigit
  let rest := cs.dropWhile Char.isDigit
  match cs, digits with
  | [], _ => stop .endInValue []
  | _, [] => stopIn .invalidNumber 1 cs
  | _, digits =>
    let (n, spare) := appendDigits wordBound significand digits
    afterDigits negative n (exponent - (digits.length - spare : Nat)) rest

/-- The exact number of a significand, if there is one. -/
def whole (negative : Bool) (significand : Nat) : JsonNumber :=
  if !negative then .natural significand
  else if significand = 0 || Nat.pow 2 63 < significand then .real true (Binary64.ofNat significand)
  else .negative significand

/-- Goes on behind the digits of the whole part, of which the last `spare` are not in the
significand. -/
def afterWhole (negative : Bool) (significand spare : Nat) (cs : List Char) :
    Except Stop (JsonNumber × List Char) :=
  match cs with
  | '.' :: rest => readFraction negative significand spare rest
  | 'e' :: _ | 'E' :: _ => afterDigits negative significand spare cs
  | cs =>
    if spare = 0 then .ok (whole negative significand, cs)
    else real negative significand spare cs

/-- Reads a number behind its sign. -/
def readNumber (negative : Bool) (cs : List Char) : Except Stop (JsonNumber × List Char) :=
  match cs with
  | [] => stop .endInValue []
  | '0' :: rest =>
    if (rest.head?.map Char.isDigit).getD false then stopIn .invalidNumber 1 rest
    else afterWhole negative 0 0 rest
  | cs =>
    let digits := cs.takeWhile Char.isDigit
    if digits.isEmpty then stopIn .invalidNumber 1 cs
    else
      let (n, spare) := appendDigits wordBound 0 digits
      afterWhole negative n spare (cs.dropWhile Char.isDigit)

/-! ## Values -/

/-- Reads the rest of a word. -/
def readWord (word : List Char) (cs : List Char) : Except Stop (List Char) :=
  match word, cs with
  | [], cs => .ok cs
  | _ :: _, [] => stop .endInValue []
  | w :: word, c :: cs => if w == c then readWord word cs else stopIn .wordExpected 1 (c :: cs)

/-- Moves to the next item of a list: `none` at its end. The closing bracket stays. -/
def nextItem (first : Bool) (cs : List Char) : Except Stop (Option (List Char)) :=
  match skipSpace cs with
  | [] => stop .endInList []
  | ']' :: _ => .ok none
  | ',' :: rest =>
    if first then .ok (some (',' :: rest))
    else
      match skipSpace rest with
      | [] => stop .endInValue []
      | ']' :: rest => stopIn .trailingComma 1 (']' :: rest)
      | rest => .ok (some rest)
  | cs => if first then .ok (some cs) else stopIn .listCommaExpected 1 cs

/-- Moves behind the quote that opens the next name of an object: `none` at its end. The closing
brace stays. -/
def nextName (first : Bool) (cs : List Char) : Except Stop (Option (List Char)) :=
  match skipSpace cs with
  | [] => stop .endInObject []
  | '\x7d' :: _ => .ok none
  | '"' :: rest => if first then .ok (some rest) else stopIn .objectCommaExpected 1 ('"' :: rest)
  | ',' :: rest =>
    if first then stopIn .nameExpected 1 (',' :: rest)
    else
      match skipSpace rest with
      | [] => stop .endInValue []
      | '"' :: rest => .ok (some rest)
      | '\x7d' :: rest => stopIn .trailingComma 1 ('\x7d' :: rest)
      | rest => stopIn .nameExpected 1 rest
  | cs => stopIn (if first then .nameExpected else .objectCommaExpected) 1 cs

/-- Reads the colon behind a name. -/
def readColon (cs : List Char) : Except Stop (List Char) :=
  match skipSpace cs with
  | [] => stop .endInObject []
  | ':' :: rest => .ok rest
  | cs => stopIn .colonExpected 1 cs

mutual

/-- Reads a value that may hold values nested to a depth. -/
def readValue (fuel depth : Nat) (cs : List Char) : Except Stop (JsonValue × List Char) :=
  match fuel with
  | 0 => stop .tooDeep cs
  | fuel + 1 =>
    match skipSpace cs with
    | [] => stop .endInValue []
    | 'n' :: rest => do return (.null, ← readWord ['u', 'l', 'l'] rest)
    | 't' :: rest => do return (.bool true, ← readWord ['r', 'u', 'e'] rest)
    | 'f' :: rest => do return (.bool false, ← readWord ['a', 'l', 's', 'e'] rest)
    | '-' :: rest => do
      let (n, rest) ← readNumber true rest
      return (.number n, rest)
    | '"' :: rest => do
      let (s, rest) ← readString rest
      return (.string s, rest)
    | '[' :: rest =>
      if depth ≤ 1 then stopIn .tooDeep 1 ('[' :: rest)
      else do
        let (items, rest) ← readItems fuel (depth - 1) true rest
        return (.list items, rest)
    | '\x7b' :: rest =>
      if depth ≤ 1 then stopIn .tooDeep 1 ('\x7b' :: rest)
      else do
        let (members, rest) ← readMembers fuel (depth - 1) true rest
        return (.object (members.foldl (fun ms m => m.insert ms) []), rest)
    | c :: rest =>
      if c.isDigit then do
        let (n, rest) ← readNumber false (c :: rest)
        return (.number n, rest)
      else stopIn .valueExpected 1 (c :: rest)

/-- Reads the items of a list to its end. -/
def readItems (fuel depth : Nat) (first : Bool) (cs : List Char) :
    Except Stop (List JsonValue × List Char) :=
  match fuel with
  | 0 => stop .tooDeep cs
  | fuel + 1 => do
    match ← nextItem first cs with
    | none => return ([], (skipSpace cs).drop 1)
    | some cs =>
      let (value, cs) ← readValue fuel depth cs
      let (more, cs) ← readItems fuel depth false cs
      return (value :: more, cs)

/-- Reads the members of an object to its end. -/
def readMembers (fuel depth : Nat) (first : Bool) (cs : List Char) :
    Except Stop (List JsonMember × List Char) :=
  match fuel with
  | 0 => stop .tooDeep cs
  | fuel + 1 => do
    match ← nextName first cs with
    | none => return ([], (skipSpace cs).drop 1)
    | some cs =>
      let (name, cs) ← readString cs
      let cs ← readColon cs
      let (value, cs) ← readValue fuel depth cs
      let (more, cs) ← readMembers fuel depth false cs
      return (.mk name value :: more, cs)

end

/-! ## Documents -/

/-- How deep values may be nested, the document included. -/
def depthBound : Nat := 128

/-- The fault of a text that is a value of another kind than an object, from which only its kind is
read. -/
def otherKind {α : Type} (cs : List Char) : Except Stop α :=
  let found (v : JsonValue) (rest : List Char) : Except Stop α := stop (.otherKind v.kind) rest
  match cs with
  | 'n' :: rest => do found .null (← readWord ['u', 'l', 'l'] rest)
  | 't' :: rest => do found (.bool true) (← readWord ['r', 'u', 'e'] rest)
  | 'f' :: rest => do found (.bool false) (← readWord ['a', 'l', 's', 'e'] rest)
  | '-' :: rest => do
    let (n, rest) ← readNumber true rest
    found (.number n) rest
  | '"' :: rest => do
    let (s, rest) ← readString rest
    found (.string s) rest
  | '[' :: rest => found (.list []) ('[' :: rest)
  | c :: rest =>
    if c.isDigit then do
      let (n, rest) ← readNumber false (c :: rest)
      found (.number n) rest
    else stopIn .valueExpected 1 (c :: rest)
  | [] => stop .endInValue []

/-- Reads the members of an object, which is the whole text. -/
def readDocument (cs : List Char) : Except Stop (List JsonMember) :=
  match skipSpace cs with
  | '\x7b' :: rest => do
    let (members, rest) ← readMembers (2 * cs.length + 4) (depthBound - 1) true rest
    match skipSpace rest with
    | [] => return members
    | rest => stopIn .trailingText 1 rest
  | cs => otherKind cs

end Json

namespace Document

/-- The document that a text holds. -/
def ofText (text : String) : Except JsonError Document :=
  let cs := text.toList
  match Json.readDocument cs with
  | .ok members => .ok (ofMembers members)
  | .error s =>
    let (line, col) := JsonError.placeFrom 1 0 (Json.size cs - s.left) cs
    .error ⟨s.fault, line, col⟩

end Document

end GlyphTrim
