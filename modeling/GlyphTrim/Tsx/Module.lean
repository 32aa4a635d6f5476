import GlyphTrim.Text.Position
import GlyphTrim.Tsx.Grammar.Transfer

/-!
# Reading a module

`Module.ofText` reads the text of a module. The readers of the parts of the syntax are tied
together by `Parse.derive`, which goes down one level for each part inside a part, so a bound on
the levels makes it total; the text bounds the levels.
-/

namespace GlyphTrim.Tsx

namespace Parse

/-- The reader of a goal, with readers of the parts inside it. -/
def rule (r : Readers) : {α : Type} → Goal α → Parse α
  | _, .expression => expression r
  | _, .assignment => assignment r
  | _, .binary => binary r
  | _, .binaryRest left strength => binaryRest r left strength
  | _, .unary => unary r
  | _, .operand => operand r
  | _, .callee => callee r
  | _, .element inline => element r inline
  | _, .pattern => bindingPattern r
  | _, .type => type r
  | _, .plainType => plainType r
  | _, .typeOperand => typeOperand r
  | _, .statement declarations => statement r declarations
  | _, .moduleItem => moduleItem r
  | _, .namespaceRest => namespaceRest r

/-- The reader of a goal, up to a number of levels. -/
def derive : Nat → {α : Type} → Goal α → Parse α
  | 0, _, _ => fail .tooDeep
  | n + 1, _, goal => rule (fun goal => derive n goal) goal

/-- Statements, declarations, imports and exports up to the end of the text. -/
def moduleItems (depth : Nat) : Parse (List Node) :=
  manyUntil (return (← token).isEof) (derive depth .moduleItem)

end Parse

/-- Reads a module, or tells where it fails. -/
def Module.ofText (text : List Char) : Except Failure Module :=
  let size := text.length + 8
  let context : Context := { limit := 4 * size }
  let first := Cursor.first text
  match Parse.moduleItems (40 * size) context ⟨first, first.start, none⟩ with
  | .ok items _ => .ok ⟨items⟩
  | .error failure _ => .error failure

end GlyphTrim.Tsx
