import GlyphTrim.Tsx.Grammar.Operand

/-!
# Operators

From operands to expressions: operators in front of an operand and between two, conditions,
assignments and commas.
-/

namespace GlyphTrim.Tsx.Parse

/-- The shape of an operation with two operands. -/
def operation (op : String) (left right : Expr) : Expr :=
  match op with
  | "&&" => .logical left.place .and left right
  | "||" => .logical left.place .or left right
  | "??" => .logical left.place .nullish left right
  | _ => .other left.place .binary [.expr left, .expr right]

/-- The operator that is next, and how strongly it binds. -/
def operator? : Parse (Option (String × Nat)) := do
  match ← token with
  | .word "in" => return if (← read).includeIn then some ("in", 7) else none
  | .word "instanceof" => return some ("instanceof", 7)
  | .mark m => return (operatorStrengths.lookup m).map (m, ·)
  | _ => return none

/-- Where a type ends and an operator follows, the marks `<` and `>` are no longer alone. -/
def rejoinMarks : Parse Unit := do
  if !(← read).inType && (← isOneOf ["<", ">"]) then replace ((← get).cur.start.next false)

/-- `as`, `as const` and `satisfies` after an operand. -/
def assertion (r : Readers) (left : Expr) : Parse (Option Expr) := do
  if ← afterBreak then return none
  if ← isWord "as" then
    if (← peek).token.isWord "const" then
      bump
      bump
      return some (.wrapped left.place .asConst left [])
    let types ← inType do
      bump
      r .type
    rejoinMarks
    return some (.wrapped left.place .as left types)
  if ← isWord "satisfies" then
    let types ← inType do
      bump
      r .type
    rejoinMarks
    return some (.wrapped left.place .satisfies left types)
  return none

/-- The operators after an operand that bind more strongly than `strength`. -/
def binaryRest (r : Readers) (left : Expr) (strength : Nat) : Parse Expr :=
  loop (fun left => do
    if strength < 7 then
      if let some e ← assertion r left then return .inl e
    match ← operator? with
    | none => return .inr left
    | some (op, own) =>
      if own ≤ strength then return .inr left
      bump
      if op == "**" then
        match left with
        | .other _ .unary _ | .other _ .await _ => fail .unaryBase
        | _ => pure ()
      let next ← r .unary
      let right ← r (.binaryRest next (if op == "**" then own - 1 else own))
      return .inl (operation op left right)) left

/-- Operands and operators. An operand that is missing in front of an operator is invalid. -/
def binary (r : Readers) : Parse Expr := do
  match ← settle (r .unary) with
  | .ok e => if e.isArrow then return e else r (.binaryRest e 0)
  | .error failure =>
    failIfInvalid
    if (← operator?).isSome then r (.binaryRest (.other (← place) .invalid []) 0)
    else throw failure

/-- `await` and its operand, after the word. -/
def awaitOperand (r : Readers) (start : Nat) : Parse Expr := do
  if ← isMark "*" then fail .awaitStar
  if !(← read).inAsync then
    if (← isOneOf [")", "]", ";", ","]) || (← token).isEof then return .name start "await"
  return .other start .await [.expr (← r .unary)]

/-- Operators in front of an operand that stand for a computation. -/
def isUnaryOperator : Token → Bool
  | .word w => ["delete", "void", "typeof"].contains w
  | .mark m => ["+", "-", "~", "!"].contains m
  | _ => false

/-- An operand with the operators in front of it. -/
def unary (r : Readers) : Parse Expr := do
  let start ← place
  if ← isOneOf ["++", "--"] then
    bump
    return .other start .update [.expr (← r .unary)]
  if isUnaryOperator (← token) then
    bump
    match ← settle (r .unary) with
    | .ok e => return .other start .unary [.expr e]
    | .error _ => return .other start .unary []
  if ← eatWord "await" then return ← awaitOperand r start
  let e ← r .operand
  if e.isArrow || (← afterBreak) then return e
  if ← isOneOf ["++", "--"] then
    bump
    return .other e.place .update [.expr e]
  return e

/-- `yield` and its operand. -/
def yieldExpression (r : Readers) : Parse Expr := do
  let start ← place
  bump
  let c ← read
  if c.inParameters && !c.inFunction then failAt start .yieldInParameters
  let delegates ← isMark "*"
  if (← isEnd) || (!delegates && !(← token).beginsExpression) then
    return .other start .yield []
  if delegates then bump
  return .other start .yield [.expr (← r .assignment)]

/-- An expression without commas that does not begin with parameters that stand for types. -/
def assignmentBase (r : Readers) : Parse Expr := do
  let start ← place
  if (← read).inGenerator && (← isWord "yield") then return ← yieldExpression r
  failIfInvalid
  let begins := (← token).isName || (← isWord "yield") || (← isMark "(")
  modify ({ · with arrowStart := if begins then some start else none })
  let test ← r .binary
  if test.isArrow then return test
  if ← eat "?" then return ← branches r test
  if test.isComputation then return test
  assignmentRest r test

/-- An arrow function with parameters that stand for types. -/
def genericArrow (r : Readers) : Parse (Option Expr) := closed do
  let start ← place
  let names ← typeParameters r
  match ← assignmentBase r with
  | .other _ .arrow parts => return some (.other start .arrow (parts ++ names))
  | _ => unexpected "("

/-- An expression without commas. -/
def assignment (r : Readers) : Parse Expr := do
  if ← isMark "<" then
    if let some e ← attempt (some <$> assignmentBase r) then return e
    if let some e ← attempt (genericArrow r) then return e
  assignmentBase r

/-- An expression with commas. -/
def expression (r : Readers) : Parse Expr := do
  let first ← r .assignment
  let rest ← manyUntil (return !(← eat ",")) (r .assignment)
  if rest.isEmpty then return first
  return .other first.place .sequence (.expr first :: rest.map .expr)

end GlyphTrim.Tsx.Parse
