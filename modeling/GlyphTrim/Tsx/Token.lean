import GlyphTrim.Tsx.Fault

/-!
# Tokens of a TSX module

A *lexeme* is a token with the places where it begins and ends and with the text after it, so
that a reader can go on from any lexeme, in the mode that suits: plain code, the text between two
tags, the value of an attribute.
-/

namespace GlyphTrim.Tsx

/-- A place in the text, with what is left from there. -/
structure Cursor where
  /-- What is left of the text. -/
  rest : List Char
  /-- The number of characters before this place. -/
  place : Nat
  /-- Whether a regular expression is to be read here, whatever else could be. -/
  regexp : Bool := false

/-- A piece of a template between its ends and its slots. -/
structure Chunk where
  /-- The text that is meant, or why an escape has no meaning. -/
  cooked : Except Failure String
  /-- The text as written. -/
  raw : String
  /-- Whether the template ends here; otherwise a slot follows. -/
  last : Bool

/-- A token. -/
inductive Token
  /-- An identifier or a keyword. -/
  | word (name : String)
  /-- A punctuation mark. -/
  | mark (text : String)
  /-- A string literal and its value. -/
  | string (value : String)
  /-- A number. -/
  | number
  /-- A number with the suffix `n`. -/
  | bigint
  /-- A regular expression. -/
  | regexp
  /-- The opening piece of a template, or one after a slot. -/
  | template (chunk : Chunk)
  /-- Text between two tags. -/
  | tagText
  /-- The name of an element or an attribute. -/
  | tagName (name : String)
  /-- Characters that are no token. -/
  | invalid (failure : Failure)
  /-- The end of the text. -/
  | eof

/-- A token in its place. -/
structure Lexeme where
  token : Token
  /-- Where the token begins. -/
  start : Cursor
  /-- Where the token ends. -/
  stop : Cursor
  /-- Whether a line break stands between the token before and this one. -/
  afterBreak : Bool

/-- Words that are never names. -/
def reservedWords : List String :=
  ["null", "true", "false", "break", "case", "catch", "continue", "debugger", "default", "do",
    "export", "else", "finally", "for", "function", "if", "return", "switch", "throw", "try",
    "var", "const", "while", "with", "new", "this", "super", "class", "extends", "import", "in",
    "instanceof", "typeof", "void", "delete", "enum"]

/-- Words that are no names in the strict code of a module. -/
def strictWords : List String :=
  ["let", "static", "await", "yield", "implements", "package", "protected", "interface",
    "private", "public"]

/-- Words with a meaning of their own in some places. -/
def contextualWords : List String :=
  ["abstract", "accessor", "any", "as", "assert", "asserts", "async", "bigint", "boolean",
    "constructor", "declare", "from", "get", "global", "infer", "intrinsic", "is", "keyof",
    "module", "namespace", "never", "number", "object", "of", "out", "override", "readonly",
    "require", "satisfies", "set", "string", "symbol", "target", "type", "undefined", "unique",
    "unknown", "using"]

/-- A word that a reference cannot use. -/
def isReserved (name : String) : Bool :=
  reservedWords.contains name || strictWords.contains name

/-- Operators of two operands, written as marks, with how strongly they bind. -/
def operatorStrengths : List (String × Nat) :=
  [("??", 1), ("||", 1), ("&&", 2), ("|", 3), ("^", 4), ("&", 5), ("==", 6), ("!=", 6),
    ("===", 6), ("!==", 6), ("<", 7), ("<=", 7), (">", 7), (">=", 7), ("<<", 8), (">>", 8),
    (">>>", 8), ("+", 9), ("-", 9), ("*", 10), ("/", 10), ("%", 10), ("**", 11)]

/-- Operators of assignment. -/
def assignmentMarks : List String :=
  ["=", "+=", "-=", "*=", "/=", "%=", "**=", "<<=", ">>=", ">>>=", "&=", "|=", "^=", "&&=",
    "||=", "??="]

namespace Token

/-- How a token is named in the wording of a fault. -/
def describe : Token → String
  | word name =>
    if isReserved name || contextualWords.contains name then name else "ident"
  | mark text => text
  | string _ => "string literal"
  | number => "numeric literal"
  | bigint => "bigint literal"
  | regexp => "regexp literal"
  | template chunk => if chunk.last then "no substitution template literal" else "template head"
  | tagText => "jsx text"
  | tagName _ => "jsx name"
  | invalid _ => "<lexing error>"
  | eof => "<eof>"

/-- Whether the token is the given mark. -/
def isMark (t : Token) (text : String) : Bool :=
  match t with
  | mark m => m == text
  | _ => false

/-- Whether the token is one of the given marks. -/
def isOneOf (t : Token) (texts : List String) : Bool :=
  match t with
  | mark m => texts.contains m
  | _ => false

/-- Whether the token is the given word. -/
def isWord (t : Token) (name : String) : Bool :=
  match t with
  | word w => w == name
  | _ => false

/-- Whether the token is a word, reserved or not. -/
def isAnyWord : Token → Bool
  | word _ => true
  | _ => false

/-- Whether the token is a word that a reference can use. -/
def isName : Token → Bool
  | word w => !isReserved w
  | _ => false

/-- Whether the token is the end of the text. -/
def isEof : Token → Bool
  | eof => true
  | _ => false

/-- How strongly the token binds two operands, if it is a mark that does. -/
def strength? : Token → Option Nat
  | mark m => operatorStrengths.lookup m
  | _ => none

/-- Whether an expression can begin with the token. -/
def beginsExpression : Token → Bool
  | word w =>
    !(isReserved w) ||
      ["null", "true", "false", "function", "new", "this", "super", "class", "import", "typeof",
        "void", "delete", "await", "yield", "let"].contains w
  | mark m =>
    ["(", "[", "\x7b", "+", "-", "!", "~", "++", "--", "/", "/=", "<", "@", "#"].contains m
  | string _ | number | bigint | regexp | template _ => true
  | _ => false

/-- Whether the token, after `let`, makes it a declaration. -/
def followsLet : Token → Bool
  | word w => w == "let" || w == "yield" || w == "await" || !(isReserved w)
  | mark m => m == "[" || m == "\x7b"
  | _ => false

end Token

end GlyphTrim.Tsx
