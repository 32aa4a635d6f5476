import GlyphTrim.Tsx.Grammar.Declaration

/-!
# Statements
-/

namespace GlyphTrim.Tsx.Parse

/-- A statement that is the body of another one. -/
def body (r : Readers) : Parse Node := r (.statement false)

/-- An expression in parentheses. -/
def head (r : Readers) : Parse Node := do
  expect "("
  let e ← allowIn (r .expression)
  expect ")"
  return .expr e

/-! ## Loops -/

/-- The rest of the head of a loop with a counter, after the first semicolon. -/
def counterHead (r : Readers) : Parse (List Node) := do
  let test ←
    if ← eat ";" then pure []
    else
      let test ← allowIn (r .expression)
      expect ";"
      pure [Node.expr test]
  if ← isMark ")" then return test
  return test ++ [.expr (← allowIn (r .expression))]

/-- What a loop goes over, after what takes its elements. -/
def overHead (r : Readers) : Parse (List Node) := do
  if ← eatWord "of" then return [.expr (← allowIn (r .assignment))]
  bump
  return [.expr (← allowIn (r .expression))]

/-- Whether a loop goes over something. -/
def atOver : Parse Bool := return (← isWord "of") || (← isWord "in")

/-- The variables that `using` declares in the head of a loop. -/
def usingInHead : Parse Bool := do
  let next ← peek
  if !(← isWord "using") || next.afterBreak || !next.token.isName then return false
  if !(next.token.isWord "of") then return true
  lookAhead do
    bump
    bump
    isWord "of"

/-- The head of a loop; also tells whether it goes over something. -/
def loopHead (r : Readers) : Parse (List Node × Bool) := do
  let isLet := (← isWord "let") && (← peek).token.followsLet
  if (← isWord "const") || (← isWord "var") || isLet then
    let ds ← variableList r true
    if ← atOver then return (.form .variableList ds :: (← overHead r), true)
    expect ";"
    return (.form .variableList ds :: (← counterHead r), false)
  if ← usingInHead then
    bump
    let d ← declarator r true false
    if ← atOver then return (d :: (← overHead r), true)
    expect ";"
    return (d :: (← counterHead r), false)
  if ← eat ";" then return (← counterHead r, false)
  let first ← within ({ · with includeIn := false }) (r .expression)
  if ← atOver then
    let p ← ofResult (first.asPattern .target)
    return (p.node :: (← overHead r), true)
  expect ";"
  return (.expr first :: (← counterHead r), false)

/-- A loop with a head, from the word `for`. -/
def forStatement (r : Readers) : Parse Node := do
  bump
  let waits ← place
  let isAwait ← eatWord "await"
  expect "("
  let (parts, isOver) ← loopHead r
  expect ")"
  let inner ← body r
  if isAwait && !isOver then failAt waits .awaitLoop
  return .form .loop (parts ++ [inner])

/-! ## Choices -/

/-- A condition, from the word `if`. -/
def condition (r : Readers) : Parse Node := do
  bump
  let test ← head r
  let yes ← body r
  if ← eatWord "else" then return .form .condition [test, yes, ← body r]
  return .form .condition [test, yes]

/-- The cases of a `switch`; `defaults` tells whether a default has been read. -/
def case (r : Readers) (defaults : Bool) : Parse (Node × Bool) := do
  let isDefault ← isWord "default"
  bump
  let test ←
    if isDefault then
      if defaults then fail .secondDefault
      pure []
    else pure [Node.expr (← allowIn (r .expression))]
  expect ":"
  let done : Parse Bool := do
    return (← isMark "\x7d") || (← isWord "case") || (← isWord "default")
  let statements ← manyUntil done (r (.statement true))
  return (.form .case (test ++ statements), isDefault)

/-- A choice between cases, from the word `switch`. -/
def switch (r : Readers) : Parse Node := do
  bump
  let subject ← head r
  expect "\x7b"
  let cases ← loop (fun (acc, defaults) => do
    if !(← isWord "case") && !(← isWord "default") then return .inr acc.reverse
    let (c, isDefault) ← case r defaults
    return .inl (c :: acc, defaults || isDefault)) ([], false)
  expect "\x7d"
  return .form .switch (subject :: cases)

/-! ## Exceptions -/

/-- What catches an exception, if it is next. -/
def catchClause (r : Readers) : Parse (List Node) := do
  if !(← eatWord "catch") then return []
  let caught ←
    if ← eat "(" then
      let p ← r .pattern
      let type ← typeAfterColon r
      expect ")"
      pure [(p.append type).node]
    else pure []
  return [.form .catch (caught ++ (← block r))]

/-- What is done in the end, if it is next. -/
def finallyClause (r : Readers) : Parse (List Node) := do
  if ← eatWord "finally" then return [.form .block (← block r)] else return []

/-- A `catch` or a `finally` that belongs to nothing. -/
def strayClause (r : Readers) : Parse Node := do
  discard <| settle (catchClause r)
  discard <| settle (finallyClause r)
  return .form .empty []

/-! ## All statements -/

/-- The end of a statement that is an expression, which an operator can put off. -/
def expressionEnd (r : Readers) (e : Expr) : Parse Node := do
  if ← eatEnd then return .form .expression [.expr e]
  if (← operator?).isSome then return .form .expression [.expr (← r (.binaryRest e 0))]
  fail .statementEndExpected

/-- What a statement that begins with a name is: labelled, a declaration, or an expression. -/
def afterName (r : Readers) (e : Expr) (name : String) : Parse Node := do
  if ← eat ":" then
    if ← isWord "function" then
      return .form .labelled [← functionDeclaration r false true]
    return .form .labelled [← body r]
  if name == "interface" && (← afterBreak) then return ← expressionEnd r e
  let found ←
    match name with
    | "declare" => declared r
    | "global" =>
      if ← isMark "\x7b" then pure (some (.form .namespace (← namespaceBlock r))) else pure none
    | _ => wordDeclaration r name false
  match found with
  | some node => return node
  | none => expressionEnd r e

/-- A statement that begins as an expression. -/
def expressionStatement (r : Readers) : Parse Node := do
  let e ← allowIn (r .expression)
  match e with
  | .name _ name => afterName r e name
  | _ => expressionEnd r e

/-- A statement of one word with a label or nothing behind it. -/
def jump : Parse Node := do
  bump
  if ← eatEnd then return .form .jump []
  discard anyWord
  expectEnd
  return .form .jump []

/-- `return` and its value. -/
def returnStatement (r : Readers) : Parse Node := do
  bump
  if ← eatEnd then return .form .return []
  let value ← allowIn (r .expression)
  expectEnd
  return .form .return [.expr value]

/-- `throw` and its value, on the same line. -/
def throwStatement (r : Readers) : Parse Node := do
  bump
  if ← afterBreak then fail .lineBreakAfterThrow
  let value ← allowIn (r .expression)
  expectEnd
  return .form .throw [.expr value]

/-- A loop with its condition at the end. -/
def doStatement (r : Readers) : Parse Node := do
  bump
  let inner ← body r
  expectWord "while"
  let test ← head r
  discard eatEnd
  return .form .loop [test, inner]

/-- A block whose exceptions are caught. -/
def tryStatement (r : Readers) : Parse Node := do
  bump
  let inner ← block r
  let handler ← catchClause r
  return .form .try (.form .block inner :: handler ++ (← finallyClause r))

/-- `import` in a statement that is no import. -/
def importInStatement (r : Readers) : Parse Node := do
  if (← peek).token.isOneOf ["(", "."] then expressionStatement r else fail .nestedModuleItem

/-- A statement that begins with a word that is no name. -/
def wordStatement (r : Readers) (word : String) (declarations : Bool) : Parse Node := do
  let next ← peek
  match word with
  | "break" | "continue" => jump
  | "debugger" =>
    bump
    expectEnd
    return .form .debugger []
  | "do" => doStatement r
  | "for" => forStatement r
  | "function" => functionDeclaration r false true
  | "class" => classDeclaration r true
  | "if" => condition r
  | "return" => returnStatement r
  | "switch" => switch r
  | "throw" => throwStatement r
  | "try" => tryStatement r
  | "catch" | "finally" => strayClause r
  | "with" =>
    bump
    let subject ← head r
    return .form .with [subject, ← body r]
  | "while" =>
    bump
    let test ← head r
    return .form .loop [test, ← body r]
  | "var" => return .form .variableList (← variableList r false)
  | "const" =>
    if next.token.isWord "enum" then
      bump
      bump
      enumeration r
    else if declarations then return .form .variableList (← variableList r false)
    else expressionStatement r
  | "let" =>
    if declarations && next.token.followsLet then
      return .form .variableList (← variableList r false)
    else expressionStatement r
  | "using" =>
    if declarations then
      if let some node ← usingVariables r then return node
    expressionStatement r
  | "await" =>
    if declarations && next.token.isWord "using" && !next.afterBreak then
      let found ← attempt do
        bump
        usingVariables r
      if let some node := found then return node
    expressionStatement r
  | "interface" =>
    if next.token.isName && !next.afterBreak then
      bump
      interface r
    else expressionStatement r
  | "type" =>
    if next.token.isName && !next.afterBreak then
      bump
      typeAlias r
    else expressionStatement r
  | "enum" =>
    if next.token.isName then
      bump
      enumeration r
    else expressionStatement r
  | "import" => importInStatement r
  | "export" => fail .nestedModuleItem
  | _ =>
    if ← atAsyncFunction then functionDeclaration r true true else expressionStatement r

/-- A statement. -/
def statement (r : Readers) (declarations : Bool) : Parse Node := do
  match ← token with
  | .word word => wordStatement r word declarations
  | t =>
    if t.isMark "\x7b" then return .form .block (← block r)
    else if ← eat ";" then return .form .empty []
    else expressionStatement r

end GlyphTrim.Tsx.Parse
