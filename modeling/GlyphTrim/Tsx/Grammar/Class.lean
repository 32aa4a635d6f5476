import GlyphTrim.Tsx.Grammar.Literal

/-!
# Classes
-/

namespace GlyphTrim.Tsx.Parse

/-- Interfaces that a class has, or that an interface extends. -/
def heritage (r : Readers) : Parse (List Node) :=
  delimited
    (do
      if ← isMark "\x7b" then return true
      return (← isWord "implements") || (← isWord "extends"))
    (do
      discard anyWord
      discard <| manyUntil (return !(← eat ".")) memberName
      if ← isMark "<" then typeArguments r else return [])

/-- The class that a class extends, with the arguments of types. -/
def superClass (r : Readers) : Parse (List Node) := do
  let e ← r .operand
  match e with
  | .other _ .instantiation _ => return [.expr e]
  | _ => if ← isMark "<" then return .expr e :: (← typeArguments r) else return [.expr e]

/-! ## Elements of a class -/

/-- The key of an element of a class: where it begins, its parts, and its name if it has one. -/
structure ClassKey where
  place : Nat
  parts : List Node
  name : Option String

namespace ClassKey

/-- Whether the key is that of the constructor. -/
def isConstructor (key : ClassKey) (isStatic : Bool) : Bool :=
  !isStatic && key.name == some "constructor"

/-- A key that is a word. -/
def word (place : Nat) (name : String) : ClassKey := ⟨place, [], some name⟩

end ClassKey

/-- Reads a key. -/
def classKey (r : Readers) : Parse ClassKey := do
  let start ← place
  if ← isMark "#" then
    privateName
    return ⟨start, [], none⟩
  match ← propertyName r with
  | .name name => return ⟨start, [], some name⟩
  | .string name => return ⟨start, [], some name⟩
  | key => return ⟨start, key.parts, none⟩

/-- Whether a method follows the name. -/
def atMethod : Parse Bool := isOneOf ["(", "<"]

/-- Whether a field follows the name; `canEnd` when it can end like a statement. -/
def atField (canEnd : Bool) : Parse Bool := do
  if ← isOneOf ["!", ":", "=", ";", "\x7d"] then return true
  if canEnd then isEnd else return false

/-- A method after its name. -/
def method (r : Readers) (key : ClassKey) (isAsync generates : Bool) : Parse Node :=
  within ({ · with inStaticBlock := false }) do
    return .form .method (key.parts ++ (← methodParts r isAsync generates))

/-- A field after its name. Another element may follow it without an end between them. -/
def field (r : Readers) (key : ClassKey) (isStatic optional : Bool) : Parse Node := do
  if key.isConstructor isStatic then failAt key.place .constructorField
  if !optional then discard (eat "!")
  let type ← typeAfterColon r
  let inField (c : Context) : Context :=
    { c with includeIn := true, inAsync := false, inGenerator := false }
  let value ← within inField do
    if ← eat "=" then return [Node.expr (← r .assignment)] else return []
  discard eatEnd
  return .form .field (key.parts ++ value ++ type)

/-- The constructor after its name. -/
def constructorElement (r : Readers) : Parse Node := do
  discard (typeParameters r)
  expect "("
  let ps ← within ({ · with inParameters := true, inFunction := false }) (constructorParameters r)
  expect ")"
  discard (typeAfterColon r)
  let body ← functionBody r false false
  return .form .method (ps.map Pattern.node ++ body.toList)

/-- A static block of a class. -/
def staticBlock (r : Readers) : Parse Node :=
  within ({ · with inStaticBlock := true }) do return .form .staticBlock (← block r)

/-- An element of a class that begins with `declare` or `static` may have that word as its name. -/
def elementNamed (r : Readers) (key : ClassKey) (canEnd : Bool) : Parse (Option Node) := do
  if ← atMethod then return some (← method r key false false)
  if (← atField canEnd) || (← isMark "?") then
    let optional ← eat "?"
    return some (← field r key false optional)
  return none

/-- The modifiers of an element: whether it is static, readonly, abstract, overriding. -/
structure Modifiers where
  isStatic : Bool
  fixed : Bool := false
  isAbstract : Bool := false
  overrides : Bool := false

/-- Reads modifiers. -/
def modifiers (isStatic : Bool) : Parse Modifiers :=
  loop (fun m => do
    match ← modifier ["abstract", "readonly", "override", "static"] true with
    | some "abstract" => return .inl { m with isAbstract := true }
    | some "readonly" => return .inl { m with fixed := true }
    | some "override" => return .inl { m with overrides := true }
    | some _ => return .inl { m with isStatic := true }
    | none => return .inr m) ⟨isStatic, false, false, false⟩

/-- An element after its name. -/
def elementAfterKey (r : Readers) (key : ClassKey) (m : Modifiers) : Parse Node := do
  let optional ← eat "?"
  if ← atMethod then
    if m.fixed then fail .readonlyMethod
    if key.isConstructor m.isStatic then return ← constructorElement r
    return ← method r key false false
  let generatorFollows := (← afterBreak) && (← isMark "*")
  let accessor :=
    (key.name == some "get" || key.name == some "set") && !(← atField false) && !generatorFollows
  if !accessor && (← atField true) then return ← field r key m.isStatic optional
  if key.name == some "async" && !(← afterBreak) then
    discard <| modifier ["override"] false
    let generates ← eat "*"
    let key ← classKey r
    if key.isConstructor m.isStatic then failAt key.place .asyncConstructor
    if m.fixed then fail .readonlyMethod
    discard (eat "?")
    return ← method r key true generates
  if accessor then
    let key ← classKey r
    return ← method r key false false
  unexpected "* for generator, private key, identifier or async"

/-- An element of a class. -/
def classElement (r : Readers) : Parse Node := do
  let accessModifier := modifier ["public", "protected", "private", "in", "out"] false
  let start ← place
  let declares ← eatWord "declare"
  let access ← accessModifier
  let declares ← if declares then pure true else eatWord "declare"
  if declares then
    if let some e ← elementNamed r (.word start "declare") true then return e
  let start ← place
  let isStatic ← eatWord "static"
  if isStatic then
    if let some e ← elementNamed r (.word start "static") false then return e
  let m ← modifiers isStatic
  if !m.fixed && !(← peek).token.isMark "(" then discard (eatWord "accessor")
  if isStatic && (← isMark "\x7b") then return ← staticBlock r
  if (← isWord "static") && (← peek).token.isMark "\x7b" then
    bump
    return ← staticBlock r
  if !m.isAbstract && !m.overrides && access.isNone then
    if let some parts ← indexSignature r then return .form .field parts
  if ← eat "*" then
    let key ← classKey r
    return ← method r key false true
  let start ← place
  let key ← if m.fixed && (← isOneOf ["!", ":"]) then pure (.word start "readonly") else classKey r
  elementAfterKey r key m

/-- A class, from the word `class`: its elements, the class that it extends, and types. -/
def classParts (r : Readers) (nameRequired : Bool) : Parse (List Node) := do
  expectWord "class"
  if nameRequired then discard bindingName else optionalName
  let names ← typeParameters r
  let extended ←
    if ← eatWord "extends" then
      let extended ← superClass r
      if ← eat "," then discard (heritage r)
      pure extended
    else pure []
  if ← eatWord "extends" then discard (superClass r)
  let interfaces ← if ← eatWord "implements" then heritage r else pure []
  if ← eatWord "implements" then discard (heritage r)
  if ← eatWord "extends" then discard (superClass r)
  expect "\x7b"
  let elements ← within ({ · with includeIn := true, colonFollows := false }) <|
    manyUntil (eat "\x7d") do
      if ← eat ";" then return .form .empty []
      classElement r
  return elements ++ extended ++ names ++ interfaces

end GlyphTrim.Tsx.Parse
