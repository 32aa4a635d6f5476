import GlyphTrim.Css.Token
import GlyphTrim.Text.Ascii
import GlyphTrim.Text.Blank
import GlyphTrim.Text.Position

/-!
# Stylesheets

A stylesheet is a tree of rules and at-rules, which keep their own source text, so that they can be
written again unchanged. `Sheet.parse` reads a stylesheet from its tokens: a statement is a prelude
up to a semicolon, a block, or the end of the block around it, and a bracket in a prelude hides
what is in it. Only what makes the rest of the text unreliable is an error: a string or an address
that is not closed, or a closing bracket that closes nothing.
-/

namespace GlyphTrim.Css

/-- A declaration, without the mark that makes it important. -/
structure Declaration where
  property : String
  value : String
  important : Bool
  deriving Repr, DecidableEq

/-- A rule: selectors and declarations. -/
structure Rule where
  /-- The selectors as written. -/
  selector : String
  declarations : List Declaration
  /-- The line of the selector, counted from one. -/
  line : Nat
  /-- The source text, up to the closing brace. -/
  raw : String
  deriving Repr, DecidableEq

/-- What an at-rule says apart from the rules in its block. -/
structure AtRule where
  name : String
  params : String
  declarations : List Declaration
  line : Nat
  /-- The source text, with the rules in the block. -/
  raw : String
  deriving Repr, DecidableEq

/-- A statement of a stylesheet. -/
inductive Node
  | rule (rule : Rule)
  /-- An at-rule and the statements in its block. -/
  | atRule (head : AtRule) (children : List Node)
  deriving Repr

/-- A stylesheet. -/
structure Sheet where
  nodes : List Node
  deriving Repr

/-! ## Errors -/

/-- A text that is no stylesheet: where, and which token is at fault. -/
structure SyntaxError where
  location : Location
  /-- The token as it is written in a message. -/
  token : String
  deriving Repr, DecidableEq

namespace SyntaxError

/-- The line, counted from one. -/
def line (e : SyntaxError) : Nat := e.location.breaks + 1

/-- The column, counted from one. -/
def col (e : SyntaxError) : Nat := e.location.units + 1

/-- What is wrong. -/
def detail (e : SyntaxError) : String := s!"unexpected `{e.token}`"

/-- The error in words. -/
def message (e : SyntaxError) : String := s!"CSS syntax error at {e.line}:{e.col}: {e.detail}"

end SyntaxError

/-- A character of a string as it is written: quotes and backslashes are escaped, and control
characters are written by their numbers. -/
def quoteChar (c : Char) : List Char :=
  if c == '"' then ['\\', '"']
  else if c == '\\' then ['\\', '\\']
  else if c == '\x00' then ['\uFFFD']
  else if c.toNat < 0x20 || c.toNat == 0x7F then '\\' :: Nat.toDigits 16 c.toNat ++ [' ']
  else [c]

/-- The token as it is written in a message, if no statement can hold it. -/
def Kind.fault? : Kind → Option String
  | badString text => some (String.ofList ('"' :: text.toList.flatMap quoteChar))
  | badUrl contents => some ("url(" ++ contents ++ ")")
  | closing b => some (String.ofList [b.closing])
  | _ => none

/-! ## Statements -/

/-- The tokens of a prelude, and those after it. `nested` tells that a closing brace ends the block
around it; `open_` holds the brackets that are open in the prelude, inside which only brackets
count. A group in brackets is gone over together with the token behind it, so an error at that token
names the place behind the bracket that opens the group, which is `group`. -/
def takePrelude (nested : Bool) (open_ : List Bracket) (group : Option Location) :
    List Token → Except SyntaxError (List Token × List Token)
  | [] => return ([], [])
  | t :: ts => do
    let more (open_ : List Bracket) (group : Option Location) :
        Except SyntaxError (List Token × List Token) := do
      let (prelude, rest) ← takePrelude nested open_ group ts
      return (t :: prelude, rest)
    match open_, t.kind with
    | b :: bs, .closing c => if b = c then more bs group else more (b :: bs) group
    | bs@(_ :: _), .opening b => more (b :: bs) group
    | bs@(_ :: _), _ => more bs group
    | [], .semicolon | [], .opening .curly => return ([], t :: ts)
    | [], .opening b => more [b] (some (t.location.advance t.text))
    | [], kind =>
      if nested && kind == .closing .curly then return ([], t :: ts)
      match kind.fault? with
      | some token => throw ⟨group.getD t.location, token⟩
      | none => more [] none

/-- Whether a token is white space or a comment. -/
def Token.isTrivia (t : Token) : Bool :=
  match t.kind with
  | .space | .comment => true
  | _ => false

/-- The text of tokens without the white space around it. -/
def trimmedText (ts : List Token) : String := String.ofList (Text.trimChars (sourceText ts))

/-- The text of tokens without the white space behind it. -/
def rawText (ts : List Token) : String :=
  String.ofList ((sourceText ts).reverse.dropWhile Text.isBlank).reverse

/-- The name of an at-rule and what follows it. -/
def splitAtPrelude (cs : List Char) : String × String :=
  let ends (c : Char) : Bool := Text.isBlank c || c == '(' || c == '"' || c == '\''
  (String.ofList (cs.takeWhile (!ends ·)), String.ofList (Text.trimChars (cs.dropWhile (!ends ·))))

/-- A value without the mark that makes a declaration important, and whether it had the mark. -/
def splitImportant (value : List Char) : List Char × Bool :=
  let back := value.reverse
  let after := (back.takeWhile (· != '!')).reverse
  match back.dropWhile (· != '!') with
  | _ :: before =>
    if Text.sameIgnoringCase (String.ofList (Text.trimChars after)) "important" then
      ((before.dropWhile Text.isBlank).reverse, true)
    else (value, false)
  | [] => (value, false)

/-- The declaration that a statement without a block makes, if it is one. -/
def Declaration.ofText (text : String) : Option Declaration :=
  let cs := text.toList
  match cs.dropWhile (· != ':') with
  | _ :: value =>
    let property := Text.trimChars (cs.takeWhile (· != ':'))
    if property.isEmpty then none
    else
      let (value, important) := splitImportant (Text.trimChars value)
      some ⟨String.ofList property, String.ofList value, important⟩
  | [] => none

/-- What a block or a stylesheet holds. -/
structure Items where
  declarations : List Declaration := []
  nodes : List Node := []

namespace Items

/-- A declaration in front of the others. -/
def consDeclaration (d : Option Declaration) (items : Items) : Items :=
  { items with declarations := d.toList ++ items.declarations }

/-- A statement in front of the others. -/
def consNode (n : Node) (items : Items) : Items := { items with nodes := n :: items.nodes }

end Items

/-- The statement with a prelude and a block. -/
def Node.ofBlock (prelude : String) (inner : Items) (raw : String) (line : Nat) : Node :=
  match prelude.toList with
  | '@' :: rest =>
    let (name, params) := splitAtPrelude rest
    .atRule ⟨name, params, inner.declarations, line, raw⟩ inner.nodes
  | _ => .rule ⟨prelude, inner.declarations, line, raw⟩

/-- The at-rule that a statement without a block is, if it is one. -/
def Node.ofStatement (prelude raw : String) (line : Nat) : Option Node :=
  match prelude.toList with
  | '@' :: rest =>
    let (name, params) := splitAtPrelude rest
    some (.atRule ⟨name, params, [], line, raw⟩ [])
  | _ => none

/-- The items of a statement without a block, in front of the others. -/
def Items.consStatement (prelude raw : String) (line : Nat) (items : Items) : Items :=
  match Node.ofStatement prelude raw line with
  | some node => items.consNode node
  | none => items.consDeclaration (Declaration.ofText prelude)

/-- The tokens after white space and comments. -/
def dropTrivia (ts : List Token) : List Token := ts.dropWhile Token.isTrivia

/-- Whether the block around a statement ends here. -/
def atEnd (nested : Bool) : List Token → Bool
  | [] => true
  | t :: _ => nested && t.kind == .closing .curly

/-- The first tokens of `ts`, up to where `rest` begins. -/
def upTo (ts rest : List Token) : List Token := ts.take (ts.length - rest.length)

/-- The items of a stylesheet, or of a block (`nested`) up to the brace that closes it, and the
tokens from there on. `fuel` exceeds the number of tokens. -/
def parseItems (nested : Bool) :
    (fuel : Nat) → List Token → Except SyntaxError (Items × List Token)
  | 0, ts => return ({}, ts)
  | fuel + 1, ts => do
    let ts := dropTrivia ts
    if atEnd nested ts then return ({}, ts)
    let line := (ts.head?.map (·.location.breaks + 1)).getD 0
    let (prelude, rest) ← takePrelude nested [] none ts
    let text := trimmedText prelude
    match rest with
    | [] =>
      return (Items.consStatement text (rawText ts) line {}, [])
    | t :: rest' =>
      match t.kind with
      | .opening .curly =>
        let (inner, rest) ← parseItems true fuel rest'
        let rest := rest.drop 1
        let (items, rest') ← parseItems nested fuel rest
        return (items.consNode (.ofBlock text inner (rawText (upTo ts rest)) line), rest')
      | .semicolon =>
        let (items, rest) ← parseItems nested fuel rest'
        return (Items.consStatement text (rawText (upTo ts rest')) line items, rest)
      | _ => return (Items.consStatement text (rawText (upTo ts rest)) line {}, rest)

/-- Reads a stylesheet. A byte order mark at its start is dropped. -/
def Sheet.parse (css : String) : Except SyntaxError Sheet := do
  let ts := tokens (Text.dropMark css.toList)
  let (items, _) ← parseItems false (ts.length + 1) ts
  return ⟨items.nodes⟩

/-! ## The rules of a stylesheet -/

mutual

/-- The rules of a statement. -/
def Node.rules : Node → List Rule
  | .rule r => [r]
  | .atRule _ children => Node.rulesOfAll children

/-- The rules of statements, in order, with those inside at-rules. -/
def Node.rulesOfAll : List Node → List Rule
  | [] => []
  | n :: ns => n.rules ++ Node.rulesOfAll ns

end

/-- The rules of a stylesheet, in order, with those inside at-rules. -/
def Sheet.rules (s : Sheet) : List Rule := Node.rulesOfAll s.nodes

mutual

/-- Cuts the outermost at-rules with a name out of a statement: what is left, and what was cut. -/
def Node.cut (name : String) : Node → List Node × List Node
  | .rule r => ([.rule r], [])
  | .atRule head children =>
    if Text.sameIgnoringCase head.name name then ([], [.atRule head children])
    else
      let (left, taken) := Node.cutAll name children
      ([.atRule head left], taken)

/-- Cuts the outermost at-rules with a name out of statements. -/
def Node.cutAll (name : String) : List Node → List Node × List Node
  | [] => ([], [])
  | n :: ns =>
    let (left, taken) := n.cut name
    let (lefts, takens) := Node.cutAll name ns
    (left ++ lefts, taken ++ takens)

end

/-- Cuts the outermost at-rules with a name out of a stylesheet, and returns them in order. -/
def Sheet.takeAtRules (s : Sheet) (name : String) : Sheet × List Node :=
  let (left, taken) := Node.cutAll name s.nodes
  (⟨left⟩, taken)

/-- The source text of a statement. -/
def Node.raw : Node → String
  | .rule r => r.raw
  | .atRule head _ => head.raw

/-! ## Selectors -/

/-- Where a scan of selectors is. -/
structure SelectorState where
  /-- The number of brackets that are open. -/
  depth : Nat := 0
  /-- The quote that closes the string that is open. -/
  quote : Option Char := none
  /-- Whether a backslash is in front of the next character. -/
  escaped : Bool := false
  deriving Repr, DecidableEq

namespace SelectorState

/-- Whether a character parts two selectors. -/
def splits (s : SelectorState) (c : Char) : Bool :=
  c == ',' && s.depth == 0 && s.quote.isNone && !s.escaped

/-- The scan after a character. -/
def step (s : SelectorState) (c : Char) : SelectorState :=
  if s.escaped then { s with escaped := false }
  else if c == '\\' then { s with escaped := true }
  else if c == '"' || c == '\'' then
    match s.quote with
    | none => { s with quote := some c }
    | some q => if q == c then { s with quote := none } else s
  else if s.quote.isSome then s
  else if c == '(' || c == '[' then { s with depth := s.depth + 1 }
  else if c == ')' || c == ']' then { s with depth := s.depth - 1 }
  else s

end SelectorState

/-- The pieces of a text between the commas that are in no bracket and no string. -/
def splitSelectors (s : SelectorState) : List Char → List (List Char)
  | [] => [[]]
  | c :: cs =>
    if s.splits c then [] :: splitSelectors (s.step c) cs
    else
      match splitSelectors (s.step c) cs with
      | piece :: pieces => (c :: piece) :: pieces
      | [] => [[c]]

/-- The selectors of a list, without the white space around them; what is blank is no selector. -/
def selectorList (selector : String) : List String :=
  (((splitSelectors {} selector.toList).map Text.trimChars).filter (!·.isEmpty)).map String.ofList

/-- The selectors of a rule. -/
def Rule.selectors (r : Rule) : List String := selectorList r.selector

/-- The declarations of a property. -/
def Rule.declarationsOf (r : Rule) (property : String) : List Declaration :=
  r.declarations.filter (Text.sameIgnoringCase ·.property property)

end GlyphTrim.Css
