/-!
# Faults of a TSX module

The causes for which a module is rejected, and their wording. A cause that a reader can work
around (a missing semicolon, a duplicate declaration, an unterminated string) is not a fault: the
module is read as if it were mended.
-/

namespace GlyphTrim.Tsx

/-- Why a module is rejected. -/
inductive Fault
  /-- A token that cannot stand here, where something else is wanted. -/
  | unexpected (got wanted : String)
  /-- A certain token is wanted. -/
  | expected (wanted got : String)
  /-- An expression is wanted. -/
  | expressionExpected
  /-- An identifier is wanted. -/
  | identifierExpected
  /-- The end of a statement is wanted after an expression. -/
  | statementEndExpected
  /-- The text ends too early. -/
  | unexpectedEnd
  /-- A character that begins no token. -/
  | unexpectedCharacter (c : Char)
  /-- A backslash in an identifier begins no escape. -/
  | escapeExpected
  /-- An escape of a string is malformed. -/
  | badEscape (wanted : String)
  /-- An escape with braces lacks the closing brace. -/
  | openUnicodeEscape
  /-- A backslash at the end of the text. -/
  | danglingBackslash
  /-- An octal escape in a template. -/
  | octalEscape
  /-- A reserved word written with an escape. -/
  | escapedReservedWord (word : String)
  /-- A number lacks its digits. -/
  | digitExpected (radix : Nat)
  /-- The text ends where an exponent is wanted. -/
  | exponentExpected
  /-- An identifier follows a number without a gap. -/
  | identifierAfterNumber
  /-- A template is not closed. -/
  | openTemplate
  /-- A regular expression is not closed. -/
  | openRegexp
  /-- A line break between `throw` and its operand. -/
  | lineBreakAfterThrow
  /-- A line break between the parameters of an arrow function and the arrow. -/
  | lineBreakBeforeArrow
  /-- An arrow function where none may stand. -/
  | arrowNotAllowed
  /-- A negated or awaited operand of `**` without parentheses. -/
  | unaryBase
  /-- `await *`. -/
  | awaitStar
  /-- `await` as a name where it is a keyword. -/
  | awaitAsName
  /-- `yield` in the parameters of a generator. -/
  | yieldInParameters
  /-- `super` where it has no meaning. -/
  | invalidSuper
  /-- `super?.()` and the like. -/
  | optionalSuperCall
  /-- `import` where it has no meaning. -/
  | invalidImport
  /-- `super!` and the like. -/
  | assertionNotAllowed (word : String)
  /-- An optional chain as the operand of `new`. -/
  | optionalConstructor
  /-- A pattern where an expression is wanted. -/
  | notAnExpression
  /-- An expression where a pattern is wanted. -/
  | notAPattern
  /-- `(...a)`. -/
  | spreadInParentheses
  /-- `()`. -/
  | emptyParentheses
  /-- Something that cannot be assigned to. -/
  | invalidTarget
  /-- A pattern without a value to take apart. -/
  | patternWithoutValue
  /-- A rest in a pattern of an object binds no name. -/
  | restWithoutName
  /-- An optional parameter that is a pattern. -/
  | optionalPattern
  /-- A parameter property that is a pattern. -/
  | patternProperty
  /-- `for await` without `of`. -/
  | awaitLoop
  /-- A second `default` in a `switch`. -/
  | secondDefault
  /-- `import` or `export` inside a statement. -/
  | nestedModuleItem
  /-- A reserved word is imported under its own name. -/
  | reservedImport
  /-- A string is imported under its own name. -/
  | stringImport (name : String)
  /-- A space between `#` and a private name. -/
  | spaceInPrivateName
  /-- A field named `constructor`. -/
  | constructorField
  /-- An asynchronous constructor. -/
  | asyncConstructor
  /-- A method marked `readonly`. -/
  | readonlyMethod
  /-- An accessor marked `readonly`. -/
  | readonlyAccessor
  /-- A setter without a parameter. -/
  | setterWithoutParameter
  /-- `className={}`. -/
  | emptyAttribute
  /-- An attribute value that is neither text nor an expression. -/
  | attributeValue
  /-- A closing tag that does not match. -/
  | closingTag (tag : String)
  /-- Nesting deeper than any text can bring about. -/
  | tooDeep
  deriving Repr, DecidableEq

/-- Character escapes of a quoted character. -/
def quotedCharacter (c : Char) : String :=
  let n := c.toNat
  if n == 0 then "\\0"
  else if c == '\t' then "\\t"
  else if c == '\r' then "\\r"
  else if c == '\n' then "\\n"
  else if c == '\'' then "\\'"
  else if c == '\\' then "\\\\"
  else if n < 0x20 || (0x7F ≤ n && n < 0xA0) || n == 0xAD || n == 0x61C || n == 0x180E ||
      (0x200B ≤ n && n ≤ 0x200F) || (0x2028 ≤ n && n ≤ 0x202E) || (0x2060 ≤ n && n ≤ 0x206F) ||
      n == 0xFEFF || (0xFFF0 ≤ n && n ≤ 0xFFFB) || n == 0xFFFE || n == 0xFFFF ||
      (0xE000 ≤ n && n ≤ 0xF8FF) || n ≥ 0xE0000 || (0x300 ≤ n && n ≤ 0x36F) ||
      (0xFE00 ≤ n && n ≤ 0xFE0F) || (0x20D0 ≤ n && n ≤ 0x20F0) then
    "\\u\x7b" ++ String.ofList (Nat.toDigits 16 n) ++ "\x7d"
  else String.ofList [c]

/-- The wording of a fault. -/
def Fault.message : Fault → String
  | unexpected got wanted => "Unexpected token `" ++ got ++ "`. Expected " ++ wanted
  | expected wanted got => "Expected '" ++ wanted ++ "', got '" ++ got ++ "'"
  | expressionExpected => "Expression expected"
  | identifierExpected => "Expected ident"
  | statementEndExpected => "Expected ';', '\x7d' or <eof>"
  | unexpectedEnd => "Unexpected eof"
  | unexpectedCharacter c => "Unexpected character '" ++ quotedCharacter c ++ "'"
  | escapeExpected => "Expected unicode escape"
  | badEscape wanted => "Bad character escape sequence, expected " ++ wanted
  | openUnicodeEscape => "Invalid unicode escape"
  | danglingBackslash => "Invalid string escape"
  | octalEscape => "Legacy octal escape is not permitted in strict mode"
  | escapedReservedWord word => "Unexpected escape sequence in reserved word: " ++ word
  | digitExpected radix =>
    let digit :=
      match radix with
      | 2 => "a binary"
      | 8 => "an octal"
      | 10 => "a decimal"
      | _ => "a hexadecimal"
    "Expected " ++ digit ++ " digit"
  | exponentExpected => "Expected +, - or decimal digit after e"
  | identifierAfterNumber => "Identifier cannot follow number"
  | openTemplate => "Unterminated template"
  | openRegexp => "Unterminated regexp literal"
  | lineBreakAfterThrow => "LineBreak cannot follow 'throw'"
  | lineBreakBeforeArrow => "Unexpected line break between arrow head and arrow"
  | arrowNotAllowed => "An arrow function is not allowed here"
  | unaryBase => "'**' cannot be applied to unary/await expression."
  | awaitStar =>
    "await* has been removed from the async functions proposal. Use Promise.all() instead."
  | awaitAsName => "`await` cannot be used as an identifier in an async context"
  | yieldInParameters => "'yield' cannot be used as a parameter within generator"
  | invalidSuper => "Invalid access to super"
  | optionalSuperCall => "Super call cannot be optional"
  | invalidImport => "Invalid access to import"
  | assertionNotAllowed word => "Typescript non-null assertion operator is not allowed with '" ++
      word ++ "'"
  | optionalConstructor => "Constructor in/after an optional chaining is not allowed."
  | notAnExpression => "Not an expression"
  | notAPattern => "Not a pattern"
  | spreadInParentheses => "Parenthesized expression cannot contain spread operator"
  | emptyParentheses => "Parenthesized expression cannot be empty"
  | invalidTarget => "Invalid assignment target"
  | patternWithoutValue => "Destructuring bindings require initializers"
  | restWithoutName => "`...` must be followed by an identifier in declaration contexts"
  | optionalPattern =>
    "A binding pattern parameter cannot be optional in an implementation signature."
  | patternProperty =>
    "Typescript parameter property must be an identifier or assignment pattern"
  | awaitLoop => "for await syntax is valid only for for-of statement"
  | secondDefault => "A switch block cannot have multiple defaults"
  | nestedModuleItem => "'import', and 'export' are not permitted here"
  | reservedImport => "cannot import as reserved word"
  | stringImport name =>
    "A string literal cannot be used as an imported binding.\n- Did you mean `import \x7b \"" ++
      name ++ "\" as foo \x7d`?"
  | spaceInPrivateName => "Unexpected space between # and identifier"
  | constructorField => "Classes may not have a non-static field named 'constructor'"
  | asyncConstructor => "Constructor can't be an async function"
  | readonlyMethod => "A method cannot be readonly"
  | readonlyAccessor => "A getter or a setter cannot be readonly"
  | setterWithoutParameter => "Setter should have exactly one parameter"
  | emptyAttribute => "JSX attributes must only be assigned a non-empty expression"
  | attributeValue => "JSX value should be either an expression or a quoted JSX text"
  | closingTag tag => "Expected corresponding JSX closing tag for <" ++ tag ++ ">"
  | tooDeep => "Nesting is too deep"

/-- A fault and the place where it shows: characters of the text before it. -/
structure Failure where
  place : Nat
  fault : Fault
  deriving Repr, DecidableEq

end GlyphTrim.Tsx
