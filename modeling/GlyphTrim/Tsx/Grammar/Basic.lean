import GlyphTrim.Tsx.Lexer
import GlyphTrim.Tsx.Syntax

/-!
# Reading syntax

A reader of a part of the syntax goes through the tokens and yields the part, or fails. A failure
keeps the place that was reached, because some readers mend a failure and go on from there; only
`attempt` goes back. The parts of the syntax that contain one another are *goals*, and a reader
of one goal gets the readers of the others as an argument, so every reader is an ordinary function.
-/

namespace GlyphTrim.Tsx

/-- What the surroundings of a part of the syntax say about it. -/
structure Context where
  /-- A bound on the number of turns of a loop: more than there are tokens. -/
  limit : Nat
  /-- In a type, where `<` and `>` stand alone. -/
  inType : Bool := false
  /-- In an asynchronous function. -/
  inAsync : Bool := false
  /-- In a generator. -/
  inGenerator : Bool := false
  /-- In the body of a function. -/
  inFunction : Bool := false
  /-- In the parameters of a function. -/
  inParameters : Bool := false
  /-- In a declaration without a definition. -/
  inDeclare : Bool := false
  /-- Whether `in` is an operator. -/
  includeIn : Bool := true
  /-- In a branch of a conditional expression. -/
  inConditional : Bool := false
  /-- In the first branch of a conditional expression, which a colon ends. -/
  colonFollows : Bool := false
  /-- In a static block of a class. -/
  inStaticBlock : Bool := false
  /-- After `extends` in a type, where a condition would be ambiguous. -/
  noTypeCondition : Bool := false

/-- Where a reader is. -/
structure State where
  /-- The token that is next. -/
  cur : Lexeme
  /-- The end of the token before. -/
  last : Cursor
  /-- Where an expression began that may turn out to be an arrow function. -/
  arrowStart : Option Nat

/-- A reader. -/
abbrev Parse := ReaderT Context (EStateM Failure State)

/-- Parts of the syntax that contain one another. -/
inductive Goal : Type → Type
  /-- An expression with commas. -/
  | expression : Goal Expr
  /-- An expression without commas. -/
  | assignment : Goal Expr
  /-- Operands and operators. -/
  | binary : Goal Expr
  /-- The operators after an operand that bind more strongly than the given strength. -/
  | binaryRest (left : Expr) (strength : Nat) : Goal Expr
  /-- An operand with the operators in front of it. -/
  | unary : Goal Expr
  /-- An operand with what follows it: members, calls, templates. -/
  | operand : Goal Expr
  /-- An operand without calls. -/
  | callee : Goal Expr
  /-- An element; `inline` when code follows it, and not text. -/
  | element (inline : Bool) : Goal Expr
  /-- A pattern of a declaration. -/
  | pattern : Goal Pattern
  /-- A type. -/
  | type : Goal (List Node)
  /-- A type that is no condition. -/
  | plainType : Goal (List Node)
  /-- A type without functions, unions and intersections. -/
  | typeOperand : Goal (List Node)
  /-- A statement; `declarations` when a declaration may stand there. -/
  | statement (declarations : Bool) : Goal Node
  /-- A statement, a declaration, an import or an export. -/
  | moduleItem : Goal Node
  /-- The name and the body of a namespace. -/
  | namespaceRest : Goal (List Node)

/-- Readers of the goals. -/
abbrev Readers := ∀ {α : Type}, Goal α → Parse α

namespace Parse

/-- The token that is next. -/
def token : Parse Token := return (← get).cur.token

/-- Where the next token begins. -/
def place : Parse Nat := return (← get).cur.start.place

/-- Where the token before ends. -/
def lastPlace : Parse Nat := return (← get).last.place

/-- Whether a line break stands in front of the next token. -/
def afterBreak : Parse Bool := return (← get).cur.afterBreak

/-- The token after the next one. -/
def peek : Parse Lexeme := fun c s => .ok (s.cur.stop.next c.inType) s

/-- Passes over the next token. -/
def bump : Parse Unit := fun c s =>
  .ok () { s with cur := s.cur.stop.next c.inType, last := s.cur.stop }

/-- Makes a lexeme the next token. The token before ends where the lexeme begins. -/
def replace (lexeme : Lexeme) : Parse Unit := fun _ s => .ok () { s with cur := lexeme }

/-- Passes over the next token, and reads on with a reader of the lexer. -/
def bumpWith (f : Cursor → Lexeme) : Parse Unit := fun _ s =>
  .ok () { s with cur := f s.cur.stop, last := s.cur.stop }

/-- Reads in changed surroundings. -/
def within {α : Type} (f : Context → Context) (p : Parse α) : Parse α := fun c s => p (f c) s

/-- Fails at a place. Characters that are no token are passed over. -/
def failAt {α : Type} (place : Nat) (fault : Fault) : Parse α := do
  match ← token with
  | .invalid _ => bump
  | _ => pure ()
  throw ⟨place, fault⟩

/-- Fails at the next token. -/
def fail {α : Type} (fault : Fault) : Parse α := do failAt (← place) fault

/-- Fails because the next token is not what is wanted. -/
def unexpected {α : Type} (wanted : String) : Parse α := do
  fail (.unexpected (← token).describe wanted)

/-- Fails with the fault of characters that are no token. -/
def failIfInvalid : Parse Unit := do
  match ← token with
  | .invalid failure => bump; throw failure
  | _ => pure ()

/-- Whether the next token is the mark. -/
def isMark (text : String) : Parse Bool := return (← token).isMark text

/-- Whether the next token is one of the marks. -/
def isOneOf (texts : List String) : Parse Bool := return (← token).isOneOf texts

/-- Whether the next token is the word. -/
def isWord (name : String) : Parse Bool := return (← token).isWord name

/-- Whether the next token is a word that a reference can use. -/
def isName : Parse Bool := return (← token).isName

/-- Passes over the mark if it is next. -/
def eat (text : String) : Parse Bool := do
  if ← isMark text then
    bump
    return true
  else return false

/-- Passes over the word if it is next. -/
def eatWord (name : String) : Parse Bool := do
  if ← isWord name then
    bump
    return true
  else return false

/-- Passes over the mark, which has to be next. -/
def expect (text : String) : Parse Unit := do
  if !(← eat text) then fail (.expected text (← token).describe)

/-- Fails unless the mark is next. -/
def expectHere (text : String) : Parse Unit := do
  if !(← isMark text) then fail (.expected text (← token).describe)

/-- Passes over the word, which has to be next. -/
def expectWord (name : String) : Parse Unit := do
  if !(← eatWord name) then fail (.expected name (← token).describe)

/-- Whether a statement can end here. -/
def isEnd : Parse Bool := do
  match ← token with
  | .mark m => if m == ";" || m == "\x7d" then return true else afterBreak
  | .eof => return true
  | _ => afterBreak

/-- Ends a statement if it can end here. -/
def eatEnd : Parse Bool := do
  if ← eat ";" then return true
  isEnd

/-- Ends a statement, which has to end here. -/
def expectEnd : Parse Unit := do
  if !(← eatEnd) then fail (.expected ";" (← token).describe)

/-- Reads something, and goes back to where it began if there is none or the reader fails. -/
def attempt {α : Type} (p : Parse (Option α)) : Parse (Option α) := fun c s =>
  match p c s with
  | .ok (some a) s => .ok (some a) s
  | _ => .ok none s

/-- Looks ahead: what the reader says is kept, where it came to is not. A failure says no. -/
def lookAhead (p : Parse Bool) : Parse Bool := fun c s =>
  match p c s with
  | .ok b _ => .ok b s
  | _ => .ok false s

/-- Reads something, and stays where the reader came to if it fails. -/
def settle {α : Type} (p : Parse α) : Parse (Except Failure α) := fun c s =>
  match p c s with
  | .ok a s => .ok (.ok a) s
  | .error e s => .ok (.error e) s

/-- Repeats a step until it yields a result. -/
def loop {σ α : Type} (step : σ → Parse (σ ⊕ α)) (s : σ) : Parse α := do
  go (← read).limit s
where
  /-- At most so many turns. -/
  go : Nat → σ → Parse α
    | 0, _ => fail .tooDeep
    | n + 1, s => do
      match ← step s with
      | .inl s => go n s
      | .inr a => return a

/-- Reads items until a condition holds. -/
def manyUntil {α : Type} (done : Parse Bool) (item : Parse α) : Parse (List α) :=
  loop (fun acc => do
    if ← done then return .inr acc.reverse
    return .inl ((← item) :: acc)) []

/-- Reads items with commas between them, and perhaps after the last, up to a mark, which is not
passed. -/
def separated {α : Type} (closing : String) (item : Parse α) : Parse (List α) :=
  manyUntil (isMark closing) do
    let a ← item
    if !(← isMark closing) then expect ","
    return a

/-- Where `in` is an operator. -/
def allowIn {α : Type} (p : Parse α) : Parse α := within ({ · with includeIn := true }) p

/-- In a type. -/
def inType {α : Type} (p : Parse α) : Parse α := within ({ · with inType := true }) p

/-- Outside the branches of a conditional expression that a colon ends. -/
def closed {α : Type} (p : Parse α) : Parse α := within ({ · with colonFollows := false }) p

/-- Any word, reserved or not. -/
def anyWord : Parse String := do
  match ← token with
  | .word name => bump; return name
  | _ => fail .identifierExpected

/-- The name that a declaration binds. -/
def bindingName : Parse String := do
  match ← token with
  | .word name =>
    if name == "await" then
      let c ← read
      if c.inDeclare then bump; return name
      if c.inStaticBlock then fail .identifierExpected
      fail .awaitAsName
    if name == "enum" || name == "this" || strictWords.contains name || !isReserved name then
      bump
      return name
    fail .identifierExpected
  | _ => fail .identifierExpected

/-- A modifier in front of what it modifies. A word that stands for itself is no modifier.
`keepStatic` leaves a `static` that begins a block. -/
def modifier (allowed : List String) (keepStatic : Bool) : Parse (Option String) := do
  match ← token with
  | .eof => throw ⟨← lastPlace, .unexpectedEnd⟩
  | .invalid _ => failIfInvalid; return none
  | .word name =>
    if !allowed.contains name then return none
    if keepStatic && name == "static" && (← peek).token.isMark "\x7b" then return none
    attempt do
      bump
      let t ← token
      let follows :=
        match t with
        | .word _ | .string _ | .number | .bigint => true
        | _ => t.isOneOf ["[", "\x7b", "*", "...", "#"]
      if follows && !(← afterBreak) then return some name
      return none
  | _ => return none

/-- Passes over a modifier of a parameter. -/
def eatParameterModifier : Parse Unit := do
  if ["public", "protected", "private", "readonly"].any (← token).isWord then
    let next := (← peek).token
    let follows :=
      match next with
      | .word _ | .string _ | .number => true
      | _ => next.isOneOf ["[", "\x7b"]
    if follows then discard <| modifier ["public", "protected", "private", "readonly"] false

end Parse

end GlyphTrim.Tsx
