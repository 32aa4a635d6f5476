import GlyphTrim.Tsx.Grammar.Type

/-!
# Functions

What functions, methods and arrow functions have in common: parameters, a result type and a body.
-/

namespace GlyphTrim.Tsx.Parse

/-- The surroundings of the body of a function. -/
def Context.ofBody (isAsync generates : Bool) (c : Context) : Context :=
  { c with
    inAsync := isAsync
    inGenerator := generates
    inFunction := true
    inParameters := false
    inStaticBlock := false }

/-- Statements in braces. The closing brace may be missing at the end of the text. -/
def block (r : Readers) : Parse (List Node) := do
  expect "\x7b"
  let fresh (c : Context) : Context :=
    { c with
      inType := false
      inConditional := false
      colonFollows := false
      includeIn := true }
  let statements ← within fresh <|
    manyUntil (return (← token).isEof || (← token).isMark "\x7d") (r (.statement true))
  discard (eat "\x7d")
  return statements

/-- The body of a function in braces. A function without a body is only declared. -/
def functionBody (r : Readers) (isAsync generates : Bool) : Parse (Option Node) :=
  within (Context.ofBody isAsync generates) do
    if !(← isMark "\x7b") then
      if ← eatEnd then return none
    return some (.form .block (← block r))

/-- The parameters, the result type and the body of a function, read with a reader of the
parameters. -/
def functionRest (r : Readers) (isAsync generates : Bool) (ps : Parse (List Pattern)) :
    Parse (List Node × Bool) :=
  within ({ · with inAsync := isAsync, inGenerator := generates }) do
    let names ← typeParameters r
    expect "("
    let ps ← within ({ · with inParameters := true, inFunction := false }) ps
    expect ")"
    let result ← returnType r
    let body ← functionBody r isAsync generates
    return (ps.map Pattern.node ++ body.toList ++ names ++ result, body.isSome)

/-- The parts of a method. -/
def methodParts (r : Readers) (isAsync generates : Bool) : Parse (List Node) :=
  return (← functionRest r isAsync generates (parameters r)).1

/-- The name of a function or a class that needs none. -/
def optionalName : Parse Unit := do
  if (← isName) || (← isWord "this") then discard bindingName

/-- A function, from the word `function`. One that is an expression has a body. -/
def function (r : Readers) (isAsync : Bool) (nameRequired isExpression : Bool) :
    Parse (List Node) := do
  expectWord "function"
  let generates ← eat "*"
  if nameRequired then discard bindingName
  else if isExpression then
    within ({ · with inAsync := isAsync, inGenerator := generates }) optionalName
  else optionalName
  let (parts, hasBody) ← functionRest r isAsync generates (parameters r)
  if isExpression && !hasBody then unexpected "\x7b"
  return parts

/-- The body of an arrow function: statements in braces, or an expression. Also tells whether it
is statements. -/
def arrowBody (r : Readers) (isAsync : Bool) : Parse (Node × Bool) :=
  within (Context.ofBody isAsync false) do
    if ← isMark "\x7b" then return (.form .block (← block r), true)
    return (.expr (← r .assignment), false)

end GlyphTrim.Tsx.Parse
