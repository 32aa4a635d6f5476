import GlyphTrim.Tsx.Grammar.Basic

/-!
# Expressions that turn out to be patterns

What stands to the left of an equals sign, or in the parentheses of an arrow function, is read as
an expression first. `Expr.asTarget` reads it again as what an assignment assigns to, and
`Expr.asParameter` as what a parameter binds.
-/

namespace GlyphTrim.Tsx

/-- What an expression is read as. -/
inductive PatternRole
  /-- The target of an assignment. -/
  | target
  /-- A part of such a target. -/
  | targetElement
  /-- A parameter. -/
  | parameter
  /-- A part of a parameter. -/
  | parameterElement
  deriving DecidableEq

/-- The role of the parts. -/
def PatternRole.element : PatternRole → PatternRole
  | target | targetElement => targetElement
  | parameter | parameterElement => parameterElement

/-- The pattern of an assignment whose target has been read. -/
def Target.withDefault (start : Nat) (target : Target) (value : Expr) : Pattern :=
  match target with
  | simple e => ⟨.withDefault, start, [.expr e, .expr value]⟩
  | pattern _ kind parts => ⟨.withDefault, start, [.form (.pattern kind) parts, .expr value]⟩

mutual

/-- An expression read as a pattern. What cannot be one is invalid and loses its parts; a method
in an object is a failure. -/
def Expr.asPattern (role : PatternRole) (e : Expr) : Except Failure Pattern :=
  match e with
  | .object place members => do
    let parts ← Member.asPatterns role.element members
    return ⟨.object, place, parts⟩
  | .array place items => do
    let parts ← Item.asPatterns role.element items
    return ⟨.array, place, parts⟩
  | .name place _ => return ⟨.name, place, []⟩
  | .other place .invalid _ => return ⟨.invalid, place, []⟩
  | .assign place op target value =>
    if role == .target then return ⟨.expression, place, [.expr e]⟩
    else if op == "=" then return target.withDefault place value
    else return ⟨.invalid, place, []⟩
  | _ =>
    match role with
    | .target => return ⟨.expression, e.place, [.expr e]⟩
    | .targetElement =>
      if e.isElementTarget then return ⟨.expression, e.place, [.expr e]⟩
      else return ⟨.invalid, e.place, []⟩
    | _ => return ⟨.invalid, e.place, []⟩

/-- The members of an object read as a pattern. -/
def Member.asPatterns (role : PatternRole) (members : List Member) : Except Failure (List Node) :=
  match members with
  | [] => return []
  | m :: rest => do
    let node ←
      match m with
      | .property key value => do
        let p ← value.asPattern role
        pure (Node.form (.pattern .expression) (key.parts ++ [p.node]))
      | .shorthand _ _ => pure (.form (.pattern .name) [])
      | .shorthandDefault _ _ value => pure (.form (.pattern .withDefault) [.expr value])
      | .spread _ value =>
        if role == .parameterElement then
          match value with
          | .name .. => pure (.form (.pattern .rest) [])
          | _ => pure (.form (.pattern .invalid) [])
        else do
          let p ← value.asPattern role
          pure (.form (.pattern .rest) [p.node])
      | .method place _ => .error ⟨place, .notAPattern⟩
    return node :: (← Member.asPatterns role rest)

/-- The elements of an array read as a pattern. A rest can only be the last. -/
def Item.asPatterns (role : PatternRole) (items : List Item) : Except Failure (List Node) :=
  match items with
  | [] => return []
  | .hole :: rest => Item.asPatterns role rest
  | .plain value :: rest => do
    let p ← value.asPattern role
    return p.node :: (← Item.asPatterns role rest)
  | .spread _ value :: rest => do
    match rest with
    | [] =>
      let p ← value.asPattern role
      return [.form (.pattern .rest) [p.node]]
    | _ => Item.asPatterns role rest

end

/-- An expression read as the target of an assignment. -/
def Expr.asTarget (e : Expr) : Except Failure Target := do
  let p ← e.asPattern .target
  match p.kind with
  | .name => return .simple e
  | .array | .object | .invalid => return .pattern p.place p.kind p.parts
  | _ => if e.isSimpleTarget then return .simple e else .error ⟨e.place, .invalidTarget⟩

/-- An expression read as a parameter. -/
def Expr.asParameter (e : Expr) : Except Failure Pattern :=
  e.asPattern .parameter

end GlyphTrim.Tsx
