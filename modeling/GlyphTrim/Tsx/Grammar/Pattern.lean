import GlyphTrim.Tsx.Grammar.Basic

/-!
# Patterns

What a declaration or a parameter binds: a name, or an array or an object that is taken apart.
-/

namespace GlyphTrim.Tsx

namespace Pattern

/-- The pattern with a default value. -/
def withDefault (p : Pattern) (value : Expr) : Pattern :=
  ⟨.withDefault, p.place, [p.node, .expr value]⟩

/-- The pattern with more parts: those of its type. -/
def append (p : Pattern) (parts : List Node) : Pattern :=
  { p with parts := p.parts ++ parts }

end Pattern

namespace Parse

/-- A colon and a type, if there is a colon. -/
def typeAfterColon (r : Readers) : Parse (List Node) := inType do
  if ← eat ":" then r .type else return []

/-- The name of a property: a word, a literal, or an expression in brackets. -/
def propertyName (r : Readers) : Parse Key := do
  match ← token with
  | .word name => bump; return .name name
  | .string value => bump; return .string value
  | .number | .bigint => bump; return .number
  | t =>
    if !(t.isMark "[") then
      unexpected "identifier, string literal, numeric literal or [ for the computed key"
    bump
    let first ← allowIn (r .assignment)
    let more ← manyUntil (return !(← eat ",")) (allowIn (r .assignment))
    expect "]"
    if more.isEmpty then return .computed first
    return .computed (.other first.place .sequence (.expr first :: more.map .expr))

/-- A private name, after its `#`. -/
def privateName : Parse Unit := do
  let start ← place
  bump
  if (← lastPlace) != (← place) then failAt start .spaceInPrivateName
  discard anyWord

/-- The name of a member of an object: a word or a private name. -/
def memberName : Parse Unit := do
  if ← isMark "#" then privateName else discard anyWord

/-- A pattern and perhaps its default value. -/
def patternWithDefault (r : Readers) : Parse Pattern := do
  let left ← r .pattern
  if ← eat "=" then return left.withDefault (← allowIn (r .assignment))
  return left

/-- A pattern that is only declared can be optional. -/
def eatOptionalMark : Parse Unit := do
  if (← read).inDeclare then discard <| eat "?"

/-- A pattern of an array. -/
def arrayPattern (r : Readers) : Parse Pattern := do
  let start ← place
  bump
  let elements ← manyUntil (isMark "]") do
    if ← eat "," then return []
    let first ← place
    let element ←
      if ← eat "..." then
        let inner ← r .pattern
        pure (Pattern.mk .rest first [inner.node])
      else patternWithDefault r
    if !(← isMark "]") then expect ","
    return [element.node]
  expect "]"
  eatOptionalMark
  return ⟨.array, start, elements.flatten⟩

/-- A property of a pattern of an object. -/
def propertyPattern (r : Readers) : Parse Pattern := do
  let start ← place
  if ← eat "..." then
    let inner ← r .pattern
    return ⟨if inner.kind == .name then .rest else .invalid, start, [inner.node]⟩
  let key ← propertyName r
  if ← eat ":" then
    let value ← patternWithDefault r
    return ⟨.expression, start, key.parts ++ [value.node]⟩
  match key with
  | .name _ => pure ()
  | _ => unexpected "an identifier"
  if ← eat "=" then return ⟨.expression, start, [.expr (← allowIn (r .assignment))]⟩
  return ⟨.expression, start, []⟩

/-- A pattern of an object. A rest at its end binds a name. -/
def objectPattern (r : Readers) : Parse Pattern := closed do
  let start ← place
  bump
  let properties ← manyUntil (eat "\x7d") do
    let property ← propertyPattern r
    if !(← isMark "\x7d") then expect ","
    return property
  match properties.getLast? with
  | some ⟨.invalid, place, _⟩ => failAt place .restWithoutName
  | _ => pure ()
  eatOptionalMark
  return ⟨.object, start, properties.map Pattern.node⟩

/-- A pattern of a declaration. -/
def bindingPattern (r : Readers) : Parse Pattern := do
  match ← token with
  | .word _ =>
    let start ← place
    discard bindingName
    return ⟨.name, start, []⟩
  | t =>
    if t.isMark "[" then arrayPattern r
    else if t.isMark "\x7b" then objectPattern r
    else unexpected "yield, an identifier, [ or \x7b"

/-! ## Parameters -/

/-- A rest parameter. -/
def restParameter (r : Readers) : Parse Pattern := do
  let start ← place
  expect "..."
  let inner ← r .pattern
  let inner ← if ← eat "=" then pure (inner.withDefault (← r .assignment)) else pure inner
  return ⟨.rest, start, inner.node :: (← typeAfterColon r)⟩

/-- A parameter that is no rest. -/
def singleParameter (r : Readers) : Parse Pattern := do
  eatParameterModifier
  let p ← patternWithDefault r
  let mark ← place
  if ← eat "?" then
    if p.kind != .name && !(← read).inDeclare then failAt mark .optionalPattern
  let p := p.append (← typeAfterColon r)
  if ← eat "=" then return p.withDefault (← r .assignment)
  return p

/-- Parameters, up to the closing parenthesis, which is not passed. -/
def parameterList (item : Parse Pattern) : Parse (List Pattern) :=
  separated ")" item

/-- The parameters of a function. -/
def parameters (r : Readers) : Parse (List Pattern) :=
  parameterList do if ← isMark "..." then restParameter r else singleParameter r

/-- The parameters of a constructor, which can be fields at the same time. -/
def constructorParameters (r : Readers) : Parse (List Pattern) :=
  parameterList do
    if ← isMark "..." then
      let start ← place
      bump
      let inner ← r .pattern
      return ⟨.rest, start, inner.node :: (← typeAfterColon r)⟩
    let access ← modifier ["public", "protected", "private", "in", "out"] false
    let overrides ← modifier ["override"] false
    let fixed ← modifier ["readonly"] false
    let p ← singleParameter r
    if access.isSome || overrides.isSome || fixed.isSome then
      if p.kind != .name && p.kind != .withDefault then failAt p.place .patternProperty
    return p

end Parse

end GlyphTrim.Tsx
