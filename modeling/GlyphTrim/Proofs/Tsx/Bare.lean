import GlyphTrim.Tsx.Syntax

/-!
# Bare syntax

The bare form of an expression has no wrappings and no places. Expressions have the same bare form
if one comes from the other by wrappings that are put in, left out or exchanged for others, wherever
these stand. The places are left out because they move when the text changes.
-/

namespace GlyphTrim.Tsx

mutual

/-- The expression without its wrappings and places. -/
def Expr.bare : Expr → Expr
  | .name _ name => .name 0 name
  | .string _ value => .string 0 value
  | .template _ head spans => .template 0 head (Span.bareAll spans)
  | .tagged _ tag types head spans =>
    .tagged 0 tag.bare (Node.bareAll types) head (Span.bareAll spans)
  | .conditional _ test yes no => .conditional 0 test.bare yes.bare no.bare
  | .call _ callee args types => .call 0 callee.bare (Item.bareAll args) (Node.bareAll types)
  | .object _ members => .object 0 (Member.bareAll members)
  | .array _ items => .array 0 (Item.bareAll items)
  | .wrapped _ _ inner _ => inner.bare
  | .logical _ op left right => .logical 0 op left.bare right.bare
  | .assign _ op target value => .assign 0 op target.bare value.bare
  | .other _ shape parts => .other 0 shape (Node.bareAll parts)

def Span.bare : Span → Span
  | .mk slot tail => .mk slot.bare tail

def Span.bareAll : List Span → List Span
  | [] => []
  | s :: rest => s.bare :: Span.bareAll rest

def Item.bare : Item → Item
  | .plain e => .plain e.bare
  | .spread _ e => .spread 0 e.bare
  | .hole => .hole

def Item.bareAll : List Item → List Item
  | [] => []
  | i :: rest => i.bare :: Item.bareAll rest

def Member.bare : Member → Member
  | .property key value => .property key.bare value.bare
  | .shorthand _ name => .shorthand 0 name
  | .shorthandDefault _ name value => .shorthandDefault 0 name value.bare
  | .spread _ value => .spread 0 value.bare
  | .method _ parts => .method 0 (Node.bareAll parts)

def Member.bareAll : List Member → List Member
  | [] => []
  | m :: rest => m.bare :: Member.bareAll rest

def Key.bare : Key → Key
  | .name name => .name name
  | .string value => .string value
  | .number => .number
  | .computed e => .computed e.bare

def Target.bare : Target → Target
  | .simple e => .simple e.bare
  | .pattern _ kind parts => .pattern 0 kind (Node.bareAll parts)

def AttributeValue.bare : AttributeValue → AttributeValue
  | .absent => .absent
  | .text value => .text value
  | .expression e => .expression e.bare
  | .element e => .element e.bare

def Node.bare : Node → Node
  | .expr e => .expr e.bare
  | .attribute name value => .attribute name value.bare
  | .form kind parts => .form kind (Node.bareAll parts)

def Node.bareAll : List Node → List Node
  | [] => []
  | n :: rest => n.bare :: Node.bareAll rest

end

theorem Span.bareAll_eq_map (ss : List Span) : Span.bareAll ss = ss.map Span.bare := by
  induction ss with
  | nil => rfl
  | cons s rest ih => rw [Span.bareAll, ih, List.map_cons]

theorem Item.bareAll_eq_map (is : List Item) : Item.bareAll is = is.map Item.bare := by
  induction is with
  | nil => rfl
  | cons i rest ih => rw [Item.bareAll, ih, List.map_cons]

theorem Member.bareAll_eq_map (ms : List Member) : Member.bareAll ms = ms.map Member.bare := by
  induction ms with
  | nil => rfl
  | cons m rest ih => rw [Member.bareAll, ih, List.map_cons]

end GlyphTrim.Tsx
