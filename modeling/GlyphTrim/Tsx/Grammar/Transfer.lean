import GlyphTrim.Tsx.Grammar.Statement

/-!
# Imports and exports
-/

namespace GlyphTrim.Tsx.Parse

/-- The name of a module: a string. -/
def moduleName : Parse Unit := do
  match ← token with
  | .string _ => bump
  | _ => unexpected "a string literal"

/-- What is said about a module after its name. -/
def moduleAttributes (r : Readers) : Parse (List Node) := do
  if ← afterBreak then return []
  if (← isWord "with") || (← isWord "assert") then
    bump
    if ← isMark "\x7b" then return [.expr (← objectLiteral r)]
    expect "\x7b"
  return []

/-- `from`, the name of a module, and the end of the statement. -/
def fromClause (r : Readers) : Parse (List Node) := do
  expectWord "from"
  moduleName
  let parts ← moduleAttributes r
  expectEnd
  return parts

/-- A name under which something is exported: a word or a string. -/
def exportedName : Parse (String ⊕ String) := do
  match ← token with
  | .word name => bump; return .inl name
  | .string name => bump; return .inr name
  | _ => unexpected "identifier or string"

/-- Names in braces. -/
def nameList (item : Parse Unit) : Parse Unit := do
  expect "\x7b"
  discard <| separated "\x7d" item
  expect "\x7d"

/-- `import a = b.c` and `import a = require("b")`, from the equals sign. -/
def importEquals : Parse Node := do
  expect "="
  if (← isWord "require") && (← peek).token.isMark "(" then
    bump
    bump
    moduleName
    expect ")"
  else qualifiedName false
  expectEnd
  return .form .imports []

/-! ## Imports -/

/-- A word in the list of imports, after the word `type`: what is imported is a type, unless the
words say that `type` is imported under another name. -/
def importedType? : Parse Unit := do
  let name ← anyWord
  if name == "as" then
    if (← token).isAnyWord then
      let second ← bindingName
      if second == "as" && (← token).isAnyWord then discard bindingName
  else if ← eatWord "as" then discard bindingName
  else if isReserved name then failAt (← lastPlace) .reservedImport

/-- A name in the list of imports. -/
def importSpecifier : Parse Unit := do
  let start ← place
  match ← exportedName with
  | .inl name =>
    if name == "type" && (← token).isAnyWord then importedType?
    else if ← eatWord "as" then discard bindingName
    else if isReserved name then failAt start .reservedImport
  | .inr name =>
    if ← eatWord "as" then discard bindingName else failAt start (.stringImport name)

/-- What an import binds after the name of the default: all under one name, or a list. -/
def importedNames : Parse Unit := do
  if ← eat "*" then
    expectWord "as"
    discard bindingName
  else if ← isMark "\x7b" then
    nameList importSpecifier

/-- The default that is imported, if there is one; `import type` is followed by what is imported,
and `import a =` gives a name to a part of a namespace. -/
def importDefault : Parse (Option Node × Bool) := do
  if !(← isName) then return (none, false)
  let name ← bindingName
  let mut typeOnly := false
  let mut bound := true
  if name == "type" then
    if ← isOneOf ["*", "\x7b"] then return (none, false)
    let next := (← peek).token
    if ← isName then
      if !(← isWord "from") || next.isWord "from" || next.isMark "=" then
        typeOnly := true
        discard bindingName
  if ← isMark "=" then return (some (← importEquals), bound)
  if (name == "source" || name == "defer") && !typeOnly then
    if ← isMark "*" then bound := false
    else if ← isName then
      let next := (← peek).token
      if !(← isWord "from") || next.isWord "from" then discard bindingName
  return (none, bound)

/-- An import, from the word `import`. -/
def importItem (r : Readers) : Parse Node := do
  if (← peek).token.isOneOf ["(", "."] then
    let e ← r .expression
    discard eatEnd
    return .form .expression [.expr e]
  bump
  match ← token with
  | .string _ =>
    bump
    let parts ← moduleAttributes r
    expectEnd
    return .form .imports parts
  | _ =>
    let (done, bound) ← importDefault
    match done with
    | some node => return node
    | none =>
      if bound then
        if !(← isWord "from") then
          expect ","
          importedNames
      else importedNames
      return .form .imports (← fromClause r)

/-! ## Exports -/

/-- A name in the list of exports, after the word `type`. -/
def exportedType : Parse Unit := do
  let name ← anyWord
  if name == "as" then
    if (← token).isAnyWord then
      let second ← anyWord
      if second == "as" && (← token).isAnyWord then discard anyWord
  else if ← eatWord "as" then discard exportedName

/-- A name in the list of exports. -/
def exportSpecifier : Parse Unit := do
  match ← exportedName with
  | .inl name =>
    if name == "type" && (← token).isAnyWord then exportedType
    else if ← eatWord "as" then discard exportedName
  | .inr _ => if ← eatWord "as" then discard exportedName

/-- What is exported as the default. -/
def exportDefault (r : Readers) : Parse Node := do
  let next ← peek
  if (← isWord "abstract") && next.token.isWord "class" && !next.afterBreak then
    bump
    return ← classDeclaration r false
  if ← isWord "interface" then
    bump
    return ← interface r
  if ← isWord "class" then return ← classDeclaration r false
  if ← atAsyncFunction then return ← functionDeclaration r true false
  if ← isWord "function" then return ← functionDeclaration r false false
  let e ← allowIn (r .assignment)
  expectEnd
  return .form .exports [.expr e]

/-- Exports of names: all names of a module, or a list. -/
def exportNames (r : Readers) : Parse Node := do
  if ← eat "*" then
    if ← eatWord "as" then
      discard exportedName
      if ← isWord "from" then return .form .exports (← fromClause r)
      expect ","
    else return .form .exports (← fromClause r)
  nameList exportSpecifier
  if ← isWord "from" then return .form .exports (← fromClause r)
  discard eatEnd
  return .form .exports []

/-- A declaration that is exported, if one is next. -/
def exportedDeclaration (r : Readers) : Parse (Option Node) := do
  if ← isWord "class" then return some (← classDeclaration r true)
  if ← atAsyncFunction then return some (← functionDeclaration r true true)
  if ← isWord "function" then return some (← functionDeclaration r false true)
  if (← isWord "const") && (← peek).token.isWord "enum" then
    bump
    bump
    return some (← enumeration r)
  if (← isWord "var") || (← isWord "const") then
    return some (.form .variableList (← variableList r false))
  if (← isWord "let") && (← peek).token.followsLet then
    return some (.form .variableList (← variableList r false))
  return none

/-- An export, from the word `export`. -/
def exportItem (r : Readers) : Parse Node := do
  bump
  if (← token).isEof then throw ⟨← lastPlace, .unexpectedEnd⟩
  if ← eatWord "declare" then
    if let some node ← declared r then return node
  if let .word word ← token then
    if let some node ← attempt (wordDeclaration r word true) then return node
  if ← eatWord "import" then
    if (← isWord "type") && (← peek).token.isName then bump
    discard anyWord
    return ← importEquals
  if ← eat "=" then
    let e ← r .expression
    expectEnd
    return .form .exports [.expr e]
  if ← eatWord "as" then
    expectWord "namespace"
    discard bindingName
    expectEnd
    return .form .exports []
  if ← eatWord "type" then return ← exportNames r
  if ← eatWord "default" then return ← exportDefault r
  if let some node ← exportedDeclaration r then return node
  exportNames r

/-- A statement, a declaration, an import or an export. -/
def moduleItem (r : Readers) : Parse Node := do
  if ← isWord "import" then importItem r
  else if ← isWord "export" then exportItem r
  else statement r true

end GlyphTrim.Tsx.Parse
