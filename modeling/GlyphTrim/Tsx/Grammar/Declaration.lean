import GlyphTrim.Tsx.Grammar.Operator

/-!
# Declarations

Variables, functions, classes, and the declarations that are about types.
-/

namespace GlyphTrim.Tsx.Parse

/-! ## Variables -/

/-- A variable and its value. A pattern needs a value to take apart, unless it is a constant, is
only declared, or stands in the head of a loop over things. -/
def declarator (r : Readers) (inHead isConstant : Bool) : Parse Node := do
  let start ← place
  let p ← r .pattern
  if p.kind == .name then discard (eat "!")
  let p := p.append (← typeAfterColon r)
  if inHead && ((← isWord "of") || (← isWord "in")) then return .form .declarator [p.node]
  if ← eat "=" then return .form .declarator [p.node, .expr (← r .assignment)]
  if !(← read).inDeclare && !(isConstant && !inHead) && p.kind != .name then
    failAt start .patternWithoutValue
  return .form .declarator [p.node]

/-- Declarators with commas between them. None need follow a comma in front of a semicolon. -/
def declarators (r : Readers) (inHead isConstant : Bool) : Parse (List Node) :=
  loop (fun acc => do
    if ← isMark ";" then return .inr acc.reverse
    let d ← declarator r inHead isConstant
    if ← eat "," then return .inl (d :: acc) else return .inr (d :: acc).reverse) []

/-- Passes over what follows a declaration that does not end, up to the end of a statement. -/
def skipToEnd (r : Readers) : Parse Unit := do
  discard <| settle (r .expression)
  loop (fun _ => do
    if ← eatEnd then return .inr ()
    bump
    match ← token with
    | .invalid _ => return .inr ()
    | _ => return .inl ()) ()

/-- Variables, from the word that declares them. -/
def variableList (r : Readers) (inHead : Bool) : Parse (List Node) := do
  let isConstant ← isWord "const"
  let isVar ← isWord "var"
  bump
  let ds ← within (fun c => { c with includeIn := c.includeIn && !(isVar && inHead) })
    (declarators r inHead isConstant)
  if inHead then return ds
  if !(← eatEnd) then skipToEnd r
  return ds

/-- Variables that are disposed of, from the word `using`. -/
def usingVariables (r : Readers) : Parse (Option Node) := do
  let next ← peek
  if next.afterBreak || !next.token.isName then return none
  bump
  let ds ← declarators r false false
  expectEnd
  return some (.form .variableList ds)

/-! ## Enumerations -/

/-- A member of an enumeration. A mark that cannot follow a member is taken for a comma. -/
def enumerationMember (r : Readers) : Parse (List Node) := do
  let key ←
    match ← token with
    | .string _ | .number | .bigint => bump; pure []
    | t =>
      if t.isMark "[" then
        bump
        let key ← r .expression
        expect "]"
        pure [Node.expr key]
      else
        discard anyWord
        pure []
  if ← eat "=" then return [.form .enumerationMember (key ++ [.expr (← r .assignment)])]
  if !(← isOneOf [",", "\x7d"]) then bump
  return [.form .enumerationMember key]

/-- An enumeration, after the word `enum`. -/
def enumeration (r : Readers) : Parse Node := do
  discard anyWord
  expect "\x7b"
  let members ← manyUntil (isMark "\x7d") do
    let m ← enumerationMember r
    discard (eat ",")
    return m
  expect "\x7d"
  return .form .enumeration members.flatten

/-! ## Types -/

/-- An interface, after the word `interface`. -/
def interface (r : Readers) : Parse Node := do
  discard anyWord
  let names ← typeParameters r
  let extended ← if ← eatWord "extends" then heritage r else pure []
  if ← isWord "extends" then
    discard <| manyUntil (return (← token).isEof || (← token).isMark "\x7b") bump
  let members ← inType (typeMembers r)
  return .form .interface (names ++ extended ++ members)

/-- A name for a type, after the word `type`. -/
def typeAlias (r : Readers) : Parse Node := do
  discard anyWord
  let names ← typeParameters r
  let type ← inType do
    if !(← eat "=") then unexpected "="
    r .type
  expectEnd
  return .form .typeAlias (names ++ type)

/-! ## Namespaces -/

/-- The statements of a namespace, in braces. -/
def namespaceBlock (r : Readers) : Parse (List Node) := do
  expect "\x7b"
  let statements ←
    manyUntil (return (← token).isEof || (← token).isMark "\x7d") (r .moduleItem)
  discard (eat "\x7d")
  return statements

/-- The name and the body of a namespace. -/
def namespaceRest (r : Readers) : Parse (List Node) := do
  discard anyWord
  if ← eat "." then r .namespaceRest else namespaceBlock r

/-- A module that is only described, from its name. -/
def describedModule (r : Readers) : Parse Node := do
  match ← token with
  | .string _ => bump
  | _ => discard bindingName
  if ← isMark "\x7b" then return .form .namespace (← namespaceBlock r)
  expectEnd
  return .form .namespace []

/-! ## Functions and classes -/

/-- A function. -/
def functionDeclaration (r : Readers) (isAsync nameRequired : Bool) : Parse Node := do
  if isAsync then bump
  return .form .function (← function r isAsync nameRequired false)

/-- Whether `async function` is next. -/
def atAsyncFunction : Parse Bool := do
  let next ← peek
  return (← isWord "async") && next.token.isWord "function" && !next.afterBreak

/-- A class. -/
def classDeclaration (r : Readers) (nameRequired : Bool) : Parse Node :=
  return .form .class (← classParts r nameRequired)

/-! ## Declarations by a word that could be a name -/

/-- A declaration that begins with a word that could be a name; `ahead` when that word is still
to be passed, and then it has to be one. -/
def wordDeclaration (r : Readers) (word : String) (ahead : Bool) : Parse (Option Node) := do
  let onLine := !(← afterBreak)
  let named ← isName
  let pass : Parse Unit := if ahead then bump else return
  match word with
  | "abstract" =>
    if ahead || ((← isWord "class") && onLine) then
      pass
      return some (← classDeclaration r true)
    return none
  | "enum" =>
    if ahead || named then
      pass
      return some (← enumeration r)
    return none
  | "interface" =>
    if ahead || named then
      pass
      return some (← interface r)
    return none
  | "module" =>
    if !onLine then return none
    pass
    match ← token with
    | .string _ => return some (← describedModule r)
    | _ =>
      if ahead || named then return some (.form .namespace (← namespaceRest r))
      return none
  | "namespace" =>
    if ahead || named then
      pass
      return some (.form .namespace (← namespaceRest r))
    return none
  | "type" =>
    if ahead || (onLine && named) then
      pass
      return some (← typeAlias r)
    return none
  | _ => return none

/-- What follows the word `declare`, if it is a declaration. -/
def declared (r : Readers) : Parse (Option Node) :=
  within ({ · with inDeclare := true }) do
    match ← token with
    | .word "function" => return some (← functionDeclaration r false true)
    | .word "class" => return some (← classDeclaration r true)
    | .word "const" =>
      if (← peek).token.isWord "enum" then
        bump
        bump
        return some (← enumeration r)
      return some (.form .variableList (← variableList r false))
    | .word "var" | .word "let" => return some (.form .variableList (← variableList r false))
    | .word "global" => return some (← describedModule r)
    | .word word => wordDeclaration r word true
    | _ => return none

end GlyphTrim.Tsx.Parse
