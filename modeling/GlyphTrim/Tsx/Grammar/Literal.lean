import GlyphTrim.Tsx.Grammar.Function
import GlyphTrim.Tsx.Grammar.Target

/-!
# Literals with parts

Arrays, objects, templates, and the arguments of a call.
-/

namespace GlyphTrim.Tsx.Parse

/-- An expression, or one that is spread. -/
def item (r : Readers) : Parse Item := do
  let start ← place
  if ← eat "..." then return .spread start (← allowIn (r .assignment))
  return .plain (← allowIn (r .assignment))

/-- The arguments of a call, in parentheses. -/
def arguments (r : Readers) : Parse (List Item) := closed do
  expect "("
  let items ← separated ")" (item r)
  expect ")"
  return items

/-- An array, from its bracket. -/
def arrayLiteral (r : Readers) : Parse Expr := closed do
  let start ← place
  bump
  let items ← manyUntil (isMark "]") do
    if ← eat "," then return .hole
    let a ← item r
    if !(← isMark "]") then expect ","
    return a
  expect "]"
  return .array start items

/-! ## Objects -/

/-- The parameters of a setter, of which there has to be one. -/
def setterParameters (r : Readers) (key : Nat) : Parse (List Pattern) := do
  let ps ← parameters r
  if ps.isEmpty then failAt key .setterWithoutParameter
  return ps

/-- A method or an accessor after its modifier. -/
def modifiedMethod (r : Readers) (start : Nat) (word : String) : Parse Member := do
  let generates ← if word == "async" then eat "*" else pure false
  let at_ ← place
  let key ← propertyName r
  let ps := if word == "set" then setterParameters r at_ else parameters r
  let (parts, _) ← functionRest r (word == "async") generates ps
  return .method start (key.parts ++ parts)

/-- A member of an object after its name. -/
def memberAfterKey (r : Readers) (start : Nat) (key : Key) : Parse Member := do
  let invalid : Parse Member := return .property key (.other (← place) .invalid [])
  let t ← token
  let goesOn :=
    match t with
    | .word _ | .bigint | .number | .string _ => true
    | t =>
      t.isOneOf ["(", "[", ":", ",", "?", "=", "*", "<"] ||
        (t.isMark "\x7d" && match key with | .name _ => true | _ => false)
  if !goesOn then return ← invalid
  if ← eat ":" then return .property key (← allowIn (r .assignment))
  if ← isOneOf ["(", "<"] then
    return .method start (key.parts ++ (← methodParts r false false))
  match key with
  | .name name =>
    discard (eat "?")
    if ← eat "=" then return .shorthandDefault start name (← allowIn (r .assignment))
    if ← isOneOf [",", "\x7d"] then return .shorthand start name
    if name == "get" || name == "set" || name == "async" then return ← modifiedMethod r start name
    unexpected ("... , *,  (, [, :, , ?, =, an identifier, public, protected, private, " ++
      "readonly, <.")
  | _ => unexpected "identifier"

/-- A member of an object. -/
def member (r : Readers) : Parse Member := do
  let start ← place
  if ← eat "..." then return .spread start (← allowIn (r .assignment))
  if ← eat "*" then
    let key ← propertyName r
    return .method start (key.parts ++ (← methodParts r false true))
  eatParameterModifier
  memberAfterKey r start (← propertyName r)

/-- An object, from its brace. -/
def objectLiteral (r : Readers) : Parse Expr := closed do
  let start ← place
  bump
  let members ← manyUntil (eat "\x7d") do
    let m ← member r
    if !(← isMark "\x7d") then expect ","
    return m
  return .object start members

/-! ## Templates -/

/-- The text of a piece of a template. In a template with a tag, an escape may be malformed. -/
def chunkText (tagged : Bool) (chunk : Chunk) : Parse String := do
  match chunk.cooked with
  | .ok text => return text
  | .error failure => if tagged then return chunk.raw else throw failure

/-- A template: the text of its first piece, and its slots with the text after each. -/
def template (r : Readers) (tagged : Bool) : Parse (String × List Span) := do
  match ← token with
  | .template chunk =>
    let head ← chunkText tagged chunk
    bump
    if chunk.last then return (head, [])
    let spans ← loop (fun acc => do
      let slot ← closed (allowIn (r .expression))
      if !(← isMark "\x7d") then unexpected "\x60\x7d\x60"
      replace (← get).cur.start.templateRest
      match ← token with
      | .template next =>
        let tail ← chunkText tagged next
        bump
        let acc := Span.mk slot tail :: acc
        return if next.last then .inr acc.reverse else .inl acc
      | _ => failIfInvalid; unexpected "\x60\x7d\x60") []
    return (head, spans)
  | _ => unexpected "\x60"

end GlyphTrim.Tsx.Parse
