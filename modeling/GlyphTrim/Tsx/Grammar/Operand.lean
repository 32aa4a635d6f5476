import GlyphTrim.Tsx.Grammar.Arrow
import GlyphTrim.Tsx.Grammar.Class
import GlyphTrim.Tsx.Grammar.Element

/-!
# Operands

Names, literals, functions, parentheses, and what can follow them: members, calls and templates.
-/

namespace GlyphTrim.Tsx.Parse

/-- What is called or has members. -/
inductive Callee
  | value (e : Expr)
  | super (place : Nat)
  | module (place : Nat)

/-- Where the callee begins. -/
def Callee.place : Callee → Nat
  | value e => e.place
  | super p | module p => p

/-- The callee as a part of an expression, if it is one. -/
def Callee.parts : Callee → List Node
  | value e => [.expr e]
  | _ => []

/-! ## Primary expressions -/

/-- A name, or an arrow function with one parameter. -/
def nameOrArrow (r : Readers) (name : String) (mayBeArrow : Bool) : Parse Expr := do
  let start ← place
  bump
  if mayBeArrow && !(← afterBreak) then
    if name == "async" && (← isName) then
      let parameter ← place
      discard bindingName
      expect "=>"
      let (body, _) ← arrowBody r true
      return .other start .arrow [(Pattern.mk .name parameter []).node, body]
    if ← eat "=>" then
      let (body, _) ← arrowBody r false
      return .other start .arrow [(Pattern.mk .name start []).node, body]
  return .name start name

/-- `async <T>(…) => …` -/
def genericAsyncArrow (r : Readers) (start : Nat) : Parse (Option Expr) := do
  let names ← typeParameters r
  expect "("
  let ps ← parameters r
  expect ")"
  let result ← returnType r
  expect "=>"
  let (body, _) ← arrowBody r true
  return some (.other start .arrow (ps.map Pattern.node ++ body :: names ++ result))

/-- What begins with `async`. -/
def afterAsync (r : Readers) (mayBeArrow : Bool) : Parse Expr := do
  let start ← place
  let next ← peek
  if next.token.isWord "function" && !next.afterBreak then
    bump
    return .other start .function (← function r true false true)
  if mayBeArrow && next.token.isMark "<" then
    let arrow ← attempt do
      bump
      genericAsyncArrow r start
    if let some e := arrow then return e
  if mayBeArrow && next.token.isMark "(" && !next.afterBreak then
    bump
    return ← parenthesis r mayBeArrow (some start)
  nameOrArrow r "async" mayBeArrow

/-- A literal that is one token. -/
def tokenLiteral (shape : Shape) : Parse Expr := do
  let start ← place
  bump
  return .other start shape []

/-- A regular expression, from its slash. -/
def regexpLiteral : Parse Expr := do
  let start ← place
  replace (← get).cur.start.regexpAt
  failIfInvalid
  bump
  return .other start .literal []

/-- An expression that begins with a word. -/
def wordExpression (r : Readers) (name : String) (mayBeArrow : Bool) : Parse Expr := do
  let start ← place
  match name with
  | "this" => tokenLiteral .this
  | "null" | "true" | "false" => tokenLiteral .literal
  | "async" => afterAsync r mayBeArrow
  | "function" => return .other start .function (← function r false false true)
  | "class" => return .other start .class (← classParts r false)
  | _ =>
    if reservedWords.contains name then fail .expressionExpected
    else nameOrArrow r name mayBeArrow

/-- An operand without what follows it. -/
def primary (r : Readers) : Parse Expr := do
  let start ← place
  let mayBeArrow := (← get).arrowStart == some start
  match ← token with
  | .word name => wordExpression r name mayBeArrow
  | .string value => bump; return .string start value
  | .number => tokenLiteral .number
  | .bigint | .regexp => tokenLiteral .literal
  | .template _ =>
    let (head, spans) ← template r false
    return .template start head spans
  | .invalid _ => failIfInvalid; fail .expressionExpected
  | .mark m =>
    match m with
    | "[" => arrayLiteral r
    | "\x7b" => objectLiteral r
    | "(" => parenthesis r mayBeArrow none
    | "/" | "/=" => regexpLiteral
    | "#" =>
      privateName
      return .other start .other []
    | _ => fail .expressionExpected
  | _ => fail .expressionExpected

/-! ## What follows an operand -/

/-- A template with a tag. -/
def taggedTemplate (r : Readers) (tag : Expr) (types : List Node) : Parse Expr := do
  let (head, spans) ← template r true
  return .tagged tag.place tag types head spans

/-- Arguments of types after an expression that is not called. -/
def instantiation (r : Readers) : Parse (Option (List Node)) := do
  if !(← isOneOf ["<", "<<"]) then return none
  attempt do
    let types ← typeArguments r
    let t ← token
    let called :=
      match t with
      | .template _ => true
      | t => t.isMark "("
    if called then return none
    let operator := t.strength?.isSome || t.isWord "instanceof" || t.isWord "in"
    if (← afterBreak) || operator || !t.beginsExpression then return some types
    return none

/-- The node of an argument. -/
def Item.node : Item → List Node
  | .plain e | .spread _ e => [.expr e]
  | .hole => []

/-- The call of a callee. -/
def callOf (callee : Callee) (optional : Bool) (args : List Item) (types : List Node) :
    Parse Expr := do
  match callee with
  | .value e =>
    if optional || e.isOptionalChain then
      return .other e.place .optionalChain (.expr e :: args.flatMap Item.node ++ types)
    return .call e.place e args types
  | .super p =>
    if optional then fail .optionalSuperCall
    return .call p (.other p .other []) args types
  | .module p => return .call p (.other p .other []) args types

/-- The member of a callee. -/
def memberOf (callee : Callee) (optional : Bool) (parts : List Node) : Parse Expr := do
  match callee with
  | .value e =>
    let shape := if optional || e.isOptionalChain then Shape.optionalChain else .member
    return .other e.place shape (.expr e :: parts)
  | .super p =>
    if optional then fail .optionalSuperCall
    return .other p .superMember parts
  | .module _ => fail .invalidImport

/-- Arguments of types after an operand, and what has to follow them. -/
def typedSubscript (r : Readers) (e : Expr) (calls : Bool) : Parse (Option Expr) := do
  let possiblyAsync :=
    match e with
    | .name _ "async" => true
    | _ => false
  if calls && possiblyAsync then
    if let some arrow ← attempt (genericAsyncArrow r e.place) then return some arrow
  let types ← typeArguments r
  if calls && (← isMark "(") then
    return some (← callOf (.value e) false (← arguments r) types)
  match ← token with
  | .template _ => return some (← taggedTemplate r e types)
  | _ => return none

/-- One thing that follows an operand, if anything does. -/
def subscript (r : Readers) (callee : Callee) (calls : Bool) : Parse (Option Expr) := do
  if !(← afterBreak) && (← isMark "!") then
    match callee with
    | .value e =>
      bump
      return some (.wrapped e.place .nonNull e [])
    | .super _ => bump; fail (.assertionNotAllowed "super")
    | .module _ => bump; fail (.assertionNotAllowed "import")
  if ← isOneOf ["<", "<<"] then
    if let .value e := callee then
      if let some e ← attempt (typedSubscript r e calls) then return some e
  let optional ← eat "?."
  if ← eat "[" then
    let index ← closed (allowIn (r .expression))
    expect "]"
    return some (← memberOf callee optional [.expr index])
  if ← isMark "(" then
    if optional || calls then return some (← callOf callee optional (← arguments r) [])
  let dotted ← if optional then pure true else eat "."
  if dotted then
    memberName
    let e ← memberOf callee optional []
    let types ← instantiation r
    match types with
    | some types => return some (.other e.place .instantiation (.expr e :: types))
    | none => return some e
  match callee with
  | .value e =>
    match ← token with
    | .template _ => return some (← taggedTemplate r e [])
    | _ => return none
  | .super _ => fail .invalidSuper
  | .module _ => fail .invalidImport

/-- All that follows an operand. -/
def subscripts (r : Readers) (callee : Callee) (calls : Bool) : Parse Expr := do
  match ← subscript r callee calls with
  | none =>
    match callee with
    | .value e => return e
    | _ => fail .expressionExpected
  | some e =>
    loop (fun e => do
      match ← subscript r (.value e) calls with
      | some e => return .inl e
      | none => return .inr e) e

/-- `import(…)` and `import.meta`. -/
def importExpression (r : Readers) (calls : Bool) : Parse Expr := do
  let start ← place
  bump
  if ← eat "." then
    match ← token with
    | .word name =>
      bump
      if name == "meta" then subscripts r (.value (.other start .other [])) calls
      else if name == "defer" || name == "source" then subscripts r (.module start) calls
      else unexpected "meta"
    | _ => fail .identifierExpected
  else subscripts r (.module start) calls

/-! ## Constructor calls -/

/-- Whether the constructor belongs to an optional chain. -/
def isOptionalConstructor : Expr → Bool
  | .other _ .optionalChain _ => true
  | .other _ .member (.expr (.other _ .optionalChain _) :: _) => true
  | _ => false

/-- A constructor call, from the word `new`. -/
def newExpression (r : Readers) : Parse Expr := do
  let start ← place
  bump
  if ← eat "." then
    if ← eatWord "target" then return ← subscripts r (.value (.other start .other [])) false
    unexpected "target"
  let callee ← r .callee
  if callee.isArrow then return callee
  if isOptionalConstructor callee then failAt callee.place .optionalConstructor
  let types ←
    if ← isOneOf ["<", "<<"] then
      attempt do
        let types ← typeArguments r
        expectHere "("
        return some types
    else pure none
  let types := types.getD []
  if ← isMark "(" then
    let args ← arguments r
    let e := Expr.other start (.new true) (.expr callee :: args.flatMap Item.node ++ types)
    subscripts r (.value e) false
  else return .other start (.new false) (.expr callee :: types)

/-- An operand without calls. -/
def callee (r : Readers) : Parse Expr := do
  if ← isWord "new" then return ← newExpression r
  if ← isWord "super" then
    let start ← place
    bump
    return ← subscripts r (.super start) false
  if ← isWord "import" then return ← importExpression r false
  let e ← primary r
  if e.isArrow then return e
  let e :=
    match ← instantiation r with
    | some types => .other e.place .instantiation (.expr e :: types)
    | none => e
  subscripts r (.value e) false

/-- An operand with what follows it. -/
def operand (r : Readers) : Parse Expr := do
  if ← isMark "<" then
    let next := (← peek).token
    if next.isAnyWord || next.isMark ">" then return ← r (.element true)
  if ← isWord "super" then
    let start ← place
    bump
    return ← subscripts r (.super start) true
  if ← isWord "import" then return ← importExpression r true
  let e ← r .callee
  if e.isArrow then return e
  let types ←
    if ← isOneOf ["<", "<<"] then
      attempt do
        let types ← typeArguments r
        if ← isMark "(" then return some types else return none
    else pure none
  match e with
  | .other _ (.new false) _ => return e
  | _ =>
    if ← isMark "(" then
      let e ← callOf (.value e) false (← arguments r) (types.getD [])
      subscripts r (.value e) true
    else return e

end GlyphTrim.Tsx.Parse
