import GlyphTrim.Tsx.Grammar.Literal

/-!
# Elements

An element has a name, attributes and children. What is kept of a name is its text, to compare the
closing tag with the opening one.
-/

namespace GlyphTrim.Tsx.Parse

/-- Makes a mark that begins with the end of a tag the end of a tag: what follows is text. -/
def splitTagEnd : Parse Unit := do
  match ← token with
  | .mark m => if m.length > 1 && m.front == '>' then replace ((← get).cur.start.next true)
  | _ => pure ()

/-- A part of the name of an element or an attribute. -/
def tagName : Parse String := do
  match ← token with
  | .word _ =>
    replace (← get).cur.start.tagName
    match ← token with
    | .tagName name => bump; return name
    | _ => unexpected "jsx identifier"
  | _ => unexpected "jsx identifier"

/-- The name of an element, as it stands in the wording of a fault. -/
def elementName : Parse String := do
  let first ← tagName
  if ← eat ":" then return first ++ ":" ++ (← tagName)
  let more ← manyUntil (return !(← eat ".")) tagName
  return ".".intercalate (first :: more)

/-- The name of an attribute. -/
def attributeName : Parse AttributeName := do
  let first ← tagName
  if ← eat ":" then return .qualified first (← tagName)
  return .plain first

/-- The value of an attribute, after the equals sign. -/
def attributeValue (r : Readers) : Parse AttributeValue := do
  match ← token with
  | .string value => bump; return .text value
  | t =>
    if t.isMark "\x7b" then
      let start ← place
      bump
      if ← eat "\x7d" then failAt start .emptyAttribute
      let value ← closed (allowIn (r .expression))
      expect "\x7d"
      return .expression value
    else if t.isMark "<" then return .element (← r (.element true))
    else fail .attributeValue

/-- An attribute, or attributes that are spread. -/
def elementAttribute (r : Readers) : Parse Node := do
  if ← eat "\x7b" then
    expect "..."
    let value ← closed (allowIn (r .assignment))
    expect "\x7d"
    return .expr value
  let name ← attributeName
  if ← isMark "=" then
    bumpWith Cursor.attributeValue
    return .attribute name (← attributeValue r)
  return .attribute name .absent

/-- An expression among children, from its brace. What follows it is text. -/
def container (r : Readers) : Parse (List Node) := do
  expect "\x7b"
  let parts ←
    if ← isMark "\x7d" then pure []
    else if ← eat "..." then pure [Node.expr (← closed (allowIn (r .expression)))]
    else pure [Node.expr (← closed (allowIn (r .expression)))]
  expectHere "\x7d"
  bumpWith Cursor.child
  return parts

/-- Children, up to what is no child. A child that fails ends them. -/
def children (r : Readers) : Parse (List Node) :=
  loop (fun acc => do
    match ← token with
    | .tagText => bumpWith Cursor.child; return .inl acc
    | t =>
      let child : Parse (List Node) :=
        if t.isMark "\x7b" then container r else return [.expr (← r (.element false))]
      if t.isMark "\x7b" || t.isMark "<" then
        match ← settle child with
        | .ok parts => return .inl (acc ++ parts)
        | .error _ => return .inr acc
      else return .inr acc) []

/-- The last mark of an element; `inline` when code follows it, and not text. -/
def elementEnd (inline : Bool) : Parse Unit := do
  splitTagEnd
  if inline then expect ">"
  else
    expectHere ">"
    bumpWith Cursor.child

/-- An element, from its first mark. -/
def element (r : Readers) (inline : Bool) : Parse Expr := closed do
  let start ← place
  bump
  if ← isMark ">" then
    bumpWith Cursor.child
    let parts ← children r
    expect "</"
    elementEnd inline
    return .other start .element parts
  let name ← elementName
  let types ← attempt do
    if ← isMark "<" then return some (← typeArguments r) else return none
  let attributes ← manyUntil (do splitTagEnd; isOneOf [">", "/"]) (elementAttribute r)
  let parts := attributes ++ types.getD []
  if ← eat "/" then
    elementEnd inline
    return .other start .element parts
  expectHere ">"
  bumpWith Cursor.child
  let parts := parts ++ (← children r)
  expect "</"
  let at_ ← place
  let closing ← elementName
  elementEnd inline
  if closing != name then failAt at_ (.closingTag name)
  return .other start .element parts

end GlyphTrim.Tsx.Parse
