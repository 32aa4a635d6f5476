import GlyphTrim.Tsx.Grammar.Pattern

/-!
# Types

Types have no part in the value of an expression. What is kept of a type is what can hold an
expression: the computed keys of its members.
-/

namespace GlyphTrim.Tsx.Parse

/-! ## Lists -/

/-- Items with commas between them, up to a token that ends the list, which is not passed. -/
def delimited (done : Parse Bool) (item : Parse (List Node)) : Parse (List Node) := do
  let items ← manyUntil done do
    let a ← item
    if !(← eat ",") && !(← done) then expect ","
    return a
  return items.flatten

/-- Arguments of types, in angle brackets. -/
def typeArguments (r : Readers) : Parse (List Node) := do
  let items ← inType do
    if ← isMark "<<" then
      let s ← get
      let inner := s.cur.start.advance 1
      replace (inner.next true)
    else expect "<"
    delimited (isMark ">") (r .type)
  expect ">"
  return items

/-- Arguments of types, if they follow on the same line. -/
def typeArgumentsHere (r : Readers) : Parse (List Node) := do
  if !(← afterBreak) && (← isMark "<") then typeArguments r else return []

/-- A type after a word, if the word is next. -/
def typeAfterWord (r : Readers) (word : String) : Parse (List Node) := inType do
  if ← eatWord word then r .type else return []

/-- A parameter that stands for a type. -/
def typeParameter (r : Readers) : Parse (List Node) := do
  let modifiers := ["public", "private", "protected", "readonly", "abstract", "const", "override",
    "in", "out"]
  loop (fun _ => do
    match ← modifier modifiers false with
    | some _ => return .inl ()
    | none => return .inr ()) ()
  discard anyWord
  let bound ← typeAfterWord r "extends"
  let given ← inType do if ← eat "=" then r .type else return []
  return bound ++ given

/-- Parameters that stand for types, in angle brackets, if there are any. -/
def typeParameters (r : Readers) : Parse (List Node) := do
  if !(← isMark "<") then return []
  inType do
    bump
    let items ← delimited (isMark ">") (typeParameter r)
    expect ">"
    return items

/-! ## Functions -/

/-- The parameters of a function that is only described. -/
def signatureParameters (r : Readers) : Parse (List Node) := do
  let ps ← parameters r
  if ps.any (·.kind == .withDefault) then
    unexpected
      "an identifier, [ for an array pattern, \x7b for an object patter or ... for a rest pattern"
  expect ")"
  return ps.map Pattern.node

/-- A type or a predicate after a mark. -/
def typeOrPredicateAfter (r : Readers) (mark : String) : Parse (List Node) := inType do
  expect mark
  let asserts ← isWord "asserts"
  let asserts := asserts && (← peek).token.isName
  if asserts then bump
  let next ← peek
  let tells := (← isName) && next.token.isWord "is" && !next.afterBreak
  if !asserts && !tells then r .type
  else
    discard anyWord
    if tells then
      bump
      r .type
    else return []

/-- A type or a predicate after a colon, if there is a colon. -/
def returnType (r : Readers) : Parse (List Node) := do
  if ← isMark ":" then typeOrPredicateAfter r ":" else return []

/-- The type of a function or a constructor. -/
def functionType (r : Readers) (constructs : Bool) : Parse (List Node) := do
  if constructs then
    discard (eatWord "abstract")
    expectWord "new"
  let names ← typeParameters r
  expect "("
  let ps ← signatureParameters r
  return names ++ ps ++ (← typeOrPredicateAfter r "=>")

/-- Whether a parameter of a function can begin here; it is passed. -/
def skipParameterStart (r : Readers) : Parse Bool := do
  eatParameterModifier
  match ← token with
  | .word _ => bump; return true
  | t =>
    if t.isOneOf ["\x7b", "["] then
      match ← settle (r .pattern) with
      | .ok _ => return true
      | .error _ => return false
    return false

/-- Whether a parenthesis opens the parameters of a function type. -/
def beginsFunctionType (r : Readers) : Parse Bool := do
  if ← isMark "<" then return true
  if !(← isMark "(") then return false
  lookAhead do
    bump
    if ← isOneOf [")", "..."] then return true
    if ← skipParameterStart r then
      if ← isOneOf [":", ",", "=", "?"] then return true
      if ← eat ")" then return ← isMark "=>"
    return false

/-! ## Members -/

/-- The end of a member of a type. -/
def memberEnd : Parse Unit := do
  if !(← eat ",") then expectEnd

/-- The name of a member of a type. -/
def memberKey (r : Readers) : Parse (List Node) := do
  if ← eat "[" then
    let key ← r .assignment
    expect "]"
    return [.expr key]
  match ← token with
  | .number | .string _ | .bigint => bump; return []
  | _ => memberName; return []

/-- The parameters and the result of a member that is a function, and its end. -/
def callSignature (r : Readers) : Parse (List Node) := do
  let names ← typeParameters r
  expect "("
  let ps ← signatureParameters r
  let result ← returnType r
  memberEnd
  return ps ++ result ++ names

/-- A member with an index in brackets. -/
def indexSignature (r : Readers) : Parse (Option (List Node)) := do
  let begins ← lookAhead do
    if !(← eat "[") then return false
    if !(← isName) then return false
    bump
    isOneOf [":", ","]
  if !begins then return none
  expect "["
  discard anyWord
  if !(← eat ",") then expect ":"
  let index ← inType (r .type)
  expect "]"
  let value ← typeAfterColon r
  memberEnd
  return some (index ++ value)

/-- An accessor among the members of a type. -/
def accessorSignature (r : Readers) (fixed : Bool) : Parse (Option (List Node)) := do
  if fixed then fail .readonlyAccessor
  let gets ← eatWord "get"
  if !gets then expectWord "set"
  let key ← memberKey r
  expect "("
  if gets then
    expect ")"
    let result ← typeAfterColon r
    memberEnd
    return some (key ++ result)
  let ps ← signatureParameters r
  if ps.isEmpty then fail .setterWithoutParameter
  memberEnd
  return some (key ++ ps)

/-- A property or a method of a type. -/
def propertySignature (r : Readers) (fixed : Bool) : Parse (List Node) := do
  let key ← memberKey r
  discard (eat "?")
  if ← isOneOf ["(", "<"] then
    if fixed then fail .readonlyMethod
    return key ++ (← callSignature r)
  let type ← typeAfterColon r
  memberEnd
  return key ++ type

/-- A member of a type. -/
def typeMember (r : Readers) : Parse (List Node) := do
  if ← isOneOf ["(", "<"] then return ← callSignature r
  if (← isWord "new") && (← peek).token.isOneOf ["(", "<"] then
    bump
    return ← callSignature r
  let fixed := (← modifier ["readonly"] false).isSome
  if let some parts ← indexSignature r then return parts
  if let some parts ← attempt (accessorSignature r fixed) then return parts
  propertySignature r fixed

/-- The members of a type, in braces. -/
def typeMembers (r : Readers) : Parse (List Node) := do
  expect "\x7b"
  let members ← manyUntil (isMark "\x7d") (typeMember r)
  expect "\x7d"
  return members.flatten

/-- Whether a brace opens a type with a member for each of many keys. -/
def beginsMappedType : Parse Bool :=
  lookAhead do
    bump
    if ← isOneOf ["+", "-"] then
      bump
      return ← isWord "readonly"
    discard (eatWord "readonly")
    if !(← eat "[") then return false
    if !(← isName) then return false
    bump
    isWord "in"

/-- A type with a member for each of many keys. -/
def mappedType (r : Readers) : Parse (List Node) := do
  expect "\x7b"
  if ← isOneOf ["+", "-"] then
    bump
    expectWord "readonly"
  else discard (eatWord "readonly")
  expect "["
  discard anyWord
  if !(← isWord "in") then unexpected "in"
  let keys ← typeAfterWord r "in"
  let renamed ← typeAfterWord r "as"
  expect "]"
  if ← isOneOf ["+", "-"] then
    bump
    expect "?"
  else discard (eat "?")
  let value ← typeAfterColon r
  expectEnd
  expect "\x7d"
  return keys ++ renamed ++ value

/-! ## Operands -/

/-- A name with dots. -/
def qualifiedName (lastIsAnyWord : Bool) : Parse Unit := do
  discard anyWord
  discard <| manyUntil (return !(← eat ".")) do
    if lastIsAnyWord then discard anyWord else discard bindingName

/-- A reference to a named type. -/
def typeReference (r : Readers) : Parse (List Node) := do
  eatParameterModifier
  qualifiedName true
  typeArgumentsHere r

/-- A type that another module exports. -/
def importedType (r : Readers) : Parse (List Node) := do
  bump
  expect "("
  match ← token with
  | .string _ => bump
  | _ => unexpected "a string literal"
  if ← eat "," then
    if ← isMark "\x7b" then discard (r .assignment)
    discard (eat ",")
  expect ")"
  if ← eat "." then qualifiedName false
  if ← isMark "<" then typeArguments r else return []

/-- The pieces of a template after its first. -/
def templateType (r : Readers) (chunk : Chunk) : Parse (List Node) := do
  if chunk.last then
    bump
    return []
  bump
  loop (fun acc => do
    let slot ← r .type
    if !(← isMark "\x7d") then unexpected "\x60\x7d\x60"
    replace (← get).cur.start.templateRest
    match ← token with
    | .template next =>
      bump
      return if next.last then .inr (acc ++ slot) else .inl (acc ++ slot)
    | _ => failIfInvalid; unexpected "\x60\x7d\x60") []

/-- An element of a tuple. -/
def tupleElement (r : Readers) : Parse (List Node) := do
  discard <| attempt do
    discard (eat "...")
    discard anyWord
    discard (eat "?")
    expect ":"
    return some ()
  if ← eat "..." then return ← r .type
  let type ← r .type
  discard (eat "?")
  return type

/-- Words that name a type of the language. -/
def builtinTypes : List String :=
  ["any", "boolean", "bigint", "never", "number", "object", "string", "symbol", "unknown",
    "undefined", "intrinsic", "void", "null"]

/-- Whether a type can begin with a word. -/
def beginsNamedType (name : String) : Bool :=
  ["void", "yield", "null", "await", "break", "enum"].contains name ||
    (name != "let" && !reservedWords.contains name)

/-- A type that begins with a word. -/
def namedType (r : Readers) (name : String) : Parse (List Node) := do
  let next := (← peek).token
  if name == "asserts" && next.isWord "this" then
    bump
    bump
    if ← eatWord "is" then return ← r .type
    return []
  if builtinTypes.contains name && !(next.isMark ".") then
    bump
    return []
  typeReference r

/-- A type without arrays and operators. -/
def primaryType (r : Readers) : Parse (List Node) := do
  let wanted := "an identifier, void, yield, null, await, break, a string literal, a numeric " ++
    "literal, true, false, \x60, -, import, this, typeof, \x7b, [, ("
  match ← token with
  | .word name =>
    if name == "true" || name == "false" then
      bump
      return []
    else if name == "import" then importedType r
    else if name == "this" then
      bump
      if !(← afterBreak) then if ← eatWord "is" then return ← r .type
      return []
    else if name == "typeof" then
      bump
      if ← isWord "import" then return ← importedType r
      qualifiedName true
      typeArgumentsHere r
    else if beginsNamedType name then namedType r name
    else unexpected wanted
  | .string _ | .number | .bigint => bump; return []
  | .template chunk => templateType r chunk
  | t =>
    if t.isMark "-" then
      bump
      match ← token with
      | .number | .bigint => bump; return []
      | _ => unexpected "numeric literal or bigint literal"
    else if t.isMark "\x7b" then
      if ← beginsMappedType then mappedType r else typeMembers r
    else if t.isMark "[" then
      bump
      let elements ← delimited (isMark "]") (tupleElement r)
      expect "]"
      return elements
    else if t.isMark "(" then
      bump
      let type ← r .type
      expect ")"
      return type
    else unexpected wanted

/-- A type with brackets behind it. -/
def arrayType (r : Readers) : Parse (List Node) := do
  let element ← primaryType r
  let ended : Parse Bool := do
    if ← afterBreak then return true
    return !(← eat "[")
  let more ← manyUntil ended do
    if ← eat "]" then return []
    let index ← r .type
    expect "]"
    return index
  return element ++ more.flatten

/-- A type without functions, unions and intersections. -/
def typeOperand (r : Readers) : Parse (List Node) := do
  if ["keyof", "unique", "readonly"].any (← token).isWord then
    bump
    r .typeOperand
  else if ← eatWord "infer" then
    discard anyWord
    let bound ← attempt do
      expectWord "extends"
      let bound ← r .plainType
      if (← read).noTypeCondition || !(← isMark "?") then return some bound
      return none
    return bound.getD []
  else
    discard <| modifier ["readonly"] false
    arrayType r

/-- Types with a mark between them, and perhaps before the first. -/
def joinedTypes (mark : String) (item : Parse (List Node)) : Parse (List Node) := do
  discard (eat mark)
  let first ← item
  let more ← manyUntil (return !(← eat mark)) item
  return first ++ more.flatten

/-- A type that is no condition. -/
def plainType (r : Readers) : Parse (List Node) := do
  if ← beginsFunctionType r then return ← functionType r false
  if ← isWord "new" then return ← functionType r true
  if (← isWord "abstract") && (← peek).token.isWord "new" then return ← functionType r true
  joinedTypes "|" (joinedTypes "&" (r .typeOperand))

/-- A type. -/
def type (r : Readers) : Parse (List Node) :=
  within (fun c => { c with inType := true, noTypeCondition := false }) do
    let tested ← r .plainType
    if ← afterBreak then return tested
    if !(← eatWord "extends") then return tested
    let bound ← within ({ · with noTypeCondition := true }) (r .plainType)
    expect "?"
    let yes ← r .type
    expect ":"
    let no ← r .type
    return tested ++ bound ++ yes ++ no

end GlyphTrim.Tsx.Parse
