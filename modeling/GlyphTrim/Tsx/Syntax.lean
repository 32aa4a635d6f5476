/-!
# The syntax tree of a TSX module

An expression has a constructor of its own where the resolution of class names looks inside it, or
where it can turn out to be a pattern; every other expression is a *shape* with its parts. What is
no expression (statements, declarations, patterns, types, elements of a class) is a *form* with its
parts. Parts stand in the order in which a reader visits them, so a tree is read from left to right
without a rule for each form.
-/

namespace GlyphTrim.Tsx

/-- Operators that choose one of their operands. -/
inductive LogicalOp
  | and
  | or
  | nullish
  deriving Repr, DecidableEq

/-- How a choosing operator is written. -/
def LogicalOp.text : LogicalOp → String
  | and => "&&"
  | or => "||"
  | nullish => "??"

/-- Wrappings that do not change the value of an expression. -/
inductive Wrapper
  /-- `(e)` -/
  | parentheses
  /-- `e as T` -/
  | as
  /-- `e as const` -/
  | asConst
  /-- `e satisfies T` -/
  | satisfies
  /-- `e!` -/
  | nonNull
  deriving Repr, DecidableEq

/-- Kinds of expressions whose inside plays no part in the resolution of class names. -/
inductive Shape
  | arrow
  | function
  | await
  | binary
  | «class»
  | number
  | literal
  | member
  | superMember
  | new (withArguments : Bool)
  | optionalChain
  | sequence
  | this
  | unary
  | update
  | yield
  | element
  | instantiation
  | invalid
  | other
  deriving Repr, DecidableEq

/-- Kinds of patterns. -/
inductive PatternKind
  | name
  | array
  | object
  | rest
  | withDefault
  | expression
  | invalid
  deriving Repr, DecidableEq

/-- Kinds of syntax that is no expression. -/
inductive Form
  | expression
  | block
  | empty
  | debugger
  | jump
  | condition
  | loop
  | switch
  | case
  | «try»
  | «catch»
  | «return»
  | throw
  | labelled
  | «with»
  | variableList
  | declarator
  | function
  | «class»
  | field
  | method
  | staticBlock
  | enumeration
  | enumerationMember
  | interface
  | typeAlias
  | «namespace»
  | imports
  | exports
  | pattern (kind : PatternKind)
  deriving Repr, DecidableEq

/-- The name of an attribute. -/
inductive AttributeName
  | plain (name : String)
  | qualified (space name : String)
  deriving Repr, DecidableEq

mutual

/-- An expression; `place` is where it begins. -/
inductive Expr
  | name (place : Nat) (name : String)
  | string (place : Nat) (value : String)
  | template (place : Nat) (head : String) (spans : List Span)
  | tagged (place : Nat) (tag : Expr) (types : List Node) (head : String) (spans : List Span)
  | conditional (place : Nat) (test yes no : Expr)
  | call (place : Nat) (callee : Expr) (args : List Item) (types : List Node)
  | object (place : Nat) (members : List Member)
  | array (place : Nat) (items : List Item)
  | wrapped (place : Nat) (how : Wrapper) (inner : Expr) (types : List Node)
  | logical (place : Nat) (op : LogicalOp) (left right : Expr)
  | assign (place : Nat) (op : String) (target : Target) (value : Expr)
  | other (place : Nat) (shape : Shape) (parts : List Node)

/-- A slot of a template, with the text after it. -/
inductive Span
  | mk (slot : Expr) (tail : String)

/-- An argument of a call, or an element of an array. -/
inductive Item
  | plain (value : Expr)
  | spread (place : Nat) (value : Expr)
  | hole

/-- A member of an object literal. -/
inductive Member
  /-- `key: value` -/
  | property (key : Key) (value : Expr)
  /-- `name` -/
  | shorthand (place : Nat) (name : String)
  /-- `name = value`, which only a pattern can mean -/
  | shorthandDefault (place : Nat) (name : String) (value : Expr)
  /-- `...value` -/
  | spread (place : Nat) (value : Expr)
  /-- A method or an accessor, with its key among its parts. -/
  | method (place : Nat) (parts : List Node)

/-- The key of a member. -/
inductive Key
  | name (name : String)
  | string (value : String)
  | number
  | computed (value : Expr)

/-- What an assignment assigns to. -/
inductive Target
  | simple (value : Expr)
  | pattern (place : Nat) (kind : PatternKind) (parts : List Node)

/-- The value of an attribute. -/
inductive AttributeValue
  /-- The attribute stands alone. -/
  | absent
  /-- Quoted text, with its entities replaced. -/
  | text (value : String)
  /-- An expression in braces. -/
  | expression (value : Expr)
  /-- An element without braces. -/
  | element (value : Expr)

/-- A part of the syntax. -/
inductive Node
  | expr (value : Expr)
  | attribute (name : AttributeName) (value : AttributeValue)
  | form (kind : Form) (parts : List Node)

end

instance : Inhabited Expr := ⟨.other 0 .invalid []⟩
instance : Inhabited Node := ⟨.form .empty []⟩

/-- Where an expression begins. -/
def Expr.place : Expr → Nat
  | name p _ | string p _ | template p _ _ | tagged p _ _ _ _ | conditional p _ _ _ | call p _ _ _
  | object p _ | array p _ | wrapped p _ _ _ | logical p _ _ _ | assign p _ _ _ | other p _ _ => p

/-- The expression that a statement consists of. -/
def Node.expression? : Node → Option Expr
  | form .expression [expr e] => some e
  | _ => none

/-- A module: its statements and declarations. -/
structure Module where
  items : List Node

/-- A pattern as it is read: what it is, where it begins, and its parts. -/
structure Pattern where
  kind : PatternKind
  place : Nat
  parts : List Node

/-- The pattern as a part of the syntax. -/
def Pattern.node (p : Pattern) : Node :=
  .form (.pattern p.kind) p.parts

/-- The parts of a key. -/
def Key.parts : Key → List Node
  | computed e => [.expr e]
  | _ => []

namespace Expr

/-- Whether the expression is an arrow function. -/
def isArrow : Expr → Bool
  | other _ .arrow _ => true
  | _ => false

/-- Whether the expression, apart from assertions that it is present, is an optional chain. -/
def isOptionalChain : Expr → Bool
  | other _ .optionalChain _ => true
  | wrapped _ .nonNull e _ => e.isOptionalChain
  | _ => false

/-- Whether the expression is a computation, to which nothing can be assigned. -/
def isComputation : Expr → Bool
  | conditional .. | logical .. | other _ .binary _ | other _ .unary _ | other _ .update _ => true
  | _ => false

/-- Whether the expression can be assigned to as a whole. -/
def isSimpleTarget : Expr → Bool
  | name .. => true
  | wrapped _ .asConst _ _ => false
  | wrapped .. => true
  | other _ .member _ | other _ .superMember _ | other _ .optionalChain _
  | other _ .instantiation _ => true
  | _ => false

/-- Whether the expression, as an element of a pattern, stands for itself. -/
def isElementTarget : Expr → Bool
  | name .. | string .. | template .. | call .. => true
  | wrapped _ .parentheses _ _ | wrapped _ .as _ _ => true
  | other _ .member _ | other _ .superMember _ | other _ (.new _) _ | other _ .number _
  | other _ .literal _ | other _ .function _ | other _ .class _ => true
  | _ => false

end Expr

end GlyphTrim.Tsx
