import GlyphTrim.Tsx.Grammar.Literal

/-!
# Parentheses

A parenthesis opens an expression, the parameters of an arrow function, or, after `async`, the
arguments of a call. Which of these it is shows only after the closing parenthesis, so what stands
between is read as both: expressions that can be read again as patterns, and patterns where only a
pattern can stand.
-/

namespace GlyphTrim.Tsx.Parse

/-- The result of a step that can fail at a place. -/
def ofResult {α : Type} : Except Failure α → Parse α
  | .ok a => return a
  | .error failure => failAt failure.place failure.fault

/-- What stands between parentheses. -/
inductive Enclosed
  | expression (value : Expr)
  | spread (start : Nat) (value : Expr)
  | pattern (value : Pattern)

namespace Enclosed

/-- Whether only a parameter can be meant. -/
def isPattern : Enclosed → Bool
  | pattern _ => true
  | _ => false

/-- Where it begins. -/
def place : Enclosed → Nat
  | expression e | spread _ e => e.place
  | pattern p => p.place

end Enclosed

/-- An assignment whose left side has been read. -/
def assignmentRest (r : Readers) (left : Expr) : Parse Expr := do
  match ← token with
  | .mark op =>
    if assignmentMarks.contains op then
      let target ←
        if op == "=" then ofResult left.asTarget
        else if left.isSimpleTarget then pure (.simple left)
        else failAt left.place .invalidTarget
      bump
      return .assign left.place op target (← r .assignment)
    return left
  | _ => return left

/-- The branches of a conditional expression, after its question mark. -/
def branches (r : Readers) (test : Expr) : Parse Expr := do
  let yes ← within ({ · with inConditional := true, colonFollows := true, includeIn := true })
    (r .assignment)
  expect ":"
  let no ← within ({ · with inConditional := true, colonFollows := false }) (r .assignment)
  return .conditional test.place test yes no

/-- Parameters in parentheses. A rest that is not the last is dropped. -/
def asParameters : List Enclosed → Except Failure (List Pattern)
  | [] => return []
  | [.spread _ e] => return [⟨.rest, e.place, [(← e.asParameter).node]⟩]
  | .spread .. :: rest => asParameters rest
  | .expression e :: rest => return (← e.asParameter) :: (← asParameters rest)
  | .pattern p :: rest =>
    if p.kind == .rest && !rest.isEmpty then asParameters rest
    else return p :: (← asParameters rest)

/-- An arrow function whose parameters have been read; the arrow is passed. -/
def arrowRest (r : Readers) (start : Nat) (isAsync : Bool) (items : List Enclosed)
    (result : List Node) : Parse (Expr × Bool) := do
  let ps ← ofResult (asParameters items)
  let (body, isBlock) ← arrowBody r isAsync
  return (.other start .arrow (ps.map Pattern.node ++ body :: result), isBlock)

/-- One of the things between parentheses. -/
def enclosedItem (r : Readers) : Parse Enclosed := do
  let start ← place
  modify ({ · with arrowStart := some start })
  eatParameterModifier
  let spread ← isMark "..."
  let named ← isName
  if spread then bump
  let first ←
    if spread then r .binary
    else if named then
      let left ← r .binary
      assignmentRest r left
    else allowIn (r .assignment)
  let mut value := first
  let mut optional := false
  if ← isMark "?" then
    if (← peek).token.isOneOf [",", "=", ":", ")"] then
      bump
      match first with
      | .name .. => optional := true
      | _ => failAt first.place .optionalPattern
    else if !spread then
      bump
      value ← branches r first
  if optional || (← isMark ":") then
    let p ← ofResult value.asParameter
    let p := p.append (← typeAfterColon r)
    let p := if spread then ⟨.rest, start, [p.node]⟩ else p
    if ← eat "=" then return .pattern (p.withDefault (← r .assignment))
    return .pattern p
  return if spread then .spread start value else .expression value

/-- What stands between parentheses, with the parentheses. -/
def enclosed (r : Readers) : Parse (List Enclosed) := do
  expect "("
  let items ← manyUntil (isMark ")") do
    let item ← enclosedItem r
    let isName :=
      match item with
      | .expression (.name ..) | .spread _ (.name ..) => true
      | .pattern p => p.kind == .name
      | _ => false
    let arrow ← if ← isMark "=>" then eat "=>" else pure false
    let more ←
      if arrow && isName then
        let (e, _) ← arrowRest r item.place false [item] []
        pure [item, .expression e]
      else pure [item]
    if !(← isMark ")") then expect ","
    return more
  expect ")"
  return items.flatten

/-- The expressions between parentheses. -/
def asItems : List Enclosed → Except Failure (List Item)
  | [] => return []
  | .expression e :: rest => return .plain e :: (← asItems rest)
  | .spread start e :: rest => return .spread start e :: (← asItems rest)
  | .pattern p :: _ => .error ⟨p.place, .notAnExpression⟩

/-- The expressions that commas join. -/
def asOperands : List Item → Except Failure (List Expr)
  | [] => return []
  | .plain e :: rest => return e :: (← asOperands rest)
  | .spread _ e :: _ => .error ⟨e.place, .spreadInParentheses⟩
  | .hole :: rest => asOperands rest

/-- An arrow function in a branch of a conditional expression: the colon after its parameters
could also belong to the condition. -/
def arrowInBranch (r : Readers) (start : Nat) (isAsync : Bool) (items : List Enclosed) :
    Parse (Option Expr) := attempt do
  let result ← typeOrPredicateAfter r ":"
  expect "=>"
  let (e, _) ← arrowRest r start isAsync items result
  if (← read).colonFollows && !(← isMark ":") then unexpected "fail"
  return some e

/-- A parenthesis: an expression, an arrow function, or a call of `async`. -/
def parenthesis (r : Readers) (mayBeArrow : Bool) (asyncStart : Option Nat) : Parse Expr := do
  let start := asyncStart.getD (← place)
  let items ← within ({ · with colonFollows := false, includeIn := true }) (enclosed r)
  let c ← read
  if c.inConditional && (← isMark ":") then
    if let some e ← arrowInBranch r start asyncStart.isSome items then return e
  let result ←
    if !c.colonFollows && (← isMark ":") then
      attempt do
        let result ← typeOrPredicateAfter r ":"
        if !(← isMark "=>") then unexpected "fail"
        return some result
    else pure none
  if items.any Enclosed.isPattern || result.isSome || (← isMark "=>") then
    if ← afterBreak then failAt start .lineBreakBeforeArrow
    if !mayBeArrow then failAt start .arrowNotAllowed
    expect "=>"
    let (e, isBlock) ← arrowRest r start asyncStart.isSome items (result.getD [])
    if isBlock && (← token).strength?.isSome then return ← r (.binaryRest e 0)
    return e
  let items ← ofResult (asItems items)
  if let some start := asyncStart then return .call start (.name start "async") items []
  let operands ← ofResult (asOperands items)
  match operands with
  | [] => failAt start .emptyParentheses
  | [e] => return .wrapped start .parentheses e []
  | e :: rest =>
    return .wrapped start .parentheses
      (.other e.place .sequence (.expr e :: rest.map .expr)) []

end GlyphTrim.Tsx.Parse
