import GlyphTrim.ClassName.Usage
import GlyphTrim.Proofs.Survey

/-!
# The pieces of a syntax tree

A module, an expression, a slot, a statement, an attribute: each is a *piece*, and `Piece.parts`
tells what is right inside it. An address is the numbers of the parts that lead to a piece from the
outside in, so addresses in increasing order are the order of reading, and what encloses a piece
comes before it (`not_lt_of_prefix`). `Piece.exists_survey` says that the attributes of a piece are
listed in this order, each address once.
-/

namespace GlyphTrim.Tsx

/-- A piece of the syntax, of any kind. -/
inductive Piece
  | module (m : Module)
  | expr (e : Expr)
  | span (s : Span)
  | item (i : Item)
  | member (m : Member)
  | key (k : Key)
  | target (t : Target)
  | value (v : AttributeValue)
  | node (n : Node)

/-- The numbers of the parts that lead to a piece from the outside in. -/
abbrev Address := List Nat

/-- What encloses a piece does not come after it. -/
theorem not_lt_of_prefix {k l : Address} (h : k <+: l) : ¬ l < k := by
  obtain ⟨rest, rfl⟩ := h
  induction k with
  | nil => exact List.not_lt_nil _
  | cons n k ih =>
    rw [List.cons_append, List.cons_lt_cons_iff]
    rintro (hn | ⟨-, hk⟩)
    · exact Nat.lt_irrefl n hn
    · exact ih hk

namespace Piece

/-- What is right inside a piece, in the order of reading. -/
def parts : Piece → List Piece
  | module ⟨items⟩ => items.map node
  | expr (.name ..) | expr (.string ..) => []
  | expr (.template _ _ spans) => spans.map span
  | expr (.tagged _ tag types _ spans) => expr tag :: types.map node ++ spans.map span
  | expr (.conditional _ test yes no) => [expr test, expr yes, expr no]
  | expr (.call _ callee args types) => expr callee :: args.map item ++ types.map node
  | expr (.object _ members) => members.map member
  | expr (.array _ items) => items.map item
  | expr (.wrapped _ _ inner types) => expr inner :: types.map node
  | expr (.logical _ _ left right) => [expr left, expr right]
  | expr (.assign _ _ t e) => [target t, expr e]
  | expr (.other _ _ ns) => ns.map node
  | span (.mk slot _) => [expr slot]
  | item (.plain e) | item (.spread _ e) => [expr e]
  | item .hole => []
  | member (.property k e) => [key k, expr e]
  | member (.shorthand ..) => []
  | member (.shorthandDefault _ _ e) | member (.spread _ e) => [expr e]
  | member (.method _ ns) => ns.map node
  | key (.computed e) => [expr e]
  | key _ => []
  | target (.simple e) => [expr e]
  | target (.pattern _ _ ns) => ns.map node
  | value .absent | value (.text _) => []
  | value (.expression e) | value (.element e) => [expr e]
  | node (.expr e) => [expr e]
  | node (.attribute _ v) => [value v]
  | node (.form _ ns) => ns.map node

/-- The attribute that a piece is. -/
def attribute? : Piece → Option Attribute
  | node (.attribute name v) => some ⟨name, v⟩
  | _ => none

/-- The piece at an address. -/
def at? (x : Piece) : Address → Option Piece
  | [] => some x
  | n :: rest =>
    match x.parts[n]? with
    | some y => y.at? rest
    | none => none

/-- The attribute at an address. -/
def attributeAt? (x : Piece) (l : Address) : Option Attribute := (x.at? l).bind attribute?

/-- The attributes in a piece, in the order of reading. -/
def attributes : Piece → List Attribute
  | module ⟨items⟩ => Node.attributesOfAll items
  | expr e => e.attributes
  | span s => Span.attributes [s]
  | item i => Item.attributes [i]
  | member m => Member.attributes [m]
  | key k => k.attributes
  | target t => t.attributes
  | value v => v.attributes
  | node n => n.attributes

/-! ## Parts and their attributes -/

theorem flatMap_attributes_node (ns : List Node) :
    ns.flatMap (fun n => n.attributes) = Node.attributesOfAll ns := by
  induction ns with
  | nil => rfl
  | cons n ns ih => rw [List.flatMap_cons, ih, Node.attributesOfAll]

theorem flatMap_attributes_span (ss : List Span) :
    ss.flatMap (fun s => Span.attributes [s]) = Span.attributes ss := by
  induction ss with
  | nil => rfl
  | cons s ss ih =>
    obtain ⟨slot, tail⟩ := s
    rw [List.flatMap_cons, ih]
    simp [Span.attributes]

theorem flatMap_attributes_item (is : List Item) :
    is.flatMap (fun i => Item.attributes [i]) = Item.attributes is := by
  induction is with
  | nil => rfl
  | cons i is ih =>
    rw [List.flatMap_cons, ih]
    cases i <;> simp [Item.attributes]

theorem flatMap_attributes_member (ms : List Member) :
    ms.flatMap (fun m => Member.attributes [m]) = Member.attributes ms := by
  induction ms with
  | nil => rfl
  | cons m ms ih =>
    rw [List.flatMap_cons, ih]
    cases m <;> simp [Member.attributes]

/-- **The attributes in a piece** are the one that it is, then those in its parts. -/
theorem attributes_eq (x : Piece) :
    x.attributes = x.attribute?.toList ++ x.parts.flatMap attributes := by
  cases x with
  | module m => simp [attributes, attribute?, parts, List.flatMap_map, flatMap_attributes_node]
  | expr e =>
    cases e <;> simp [attributes, attribute?, parts, List.flatMap_map, Expr.attributes,
      flatMap_attributes_node, flatMap_attributes_span, flatMap_attributes_item,
      flatMap_attributes_member]
  | span s => cases s; simp [attributes, attribute?, parts, Span.attributes]
  | item i => cases i <;> simp [attributes, attribute?, parts, Item.attributes]
  | member m =>
    cases m <;> simp [attributes, attribute?, parts, List.flatMap_map, Member.attributes,
      flatMap_attributes_node]
  | key k => cases k <;> simp [attributes, attribute?, parts, Key.attributes]
  | target t =>
    cases t <;> simp [attributes, attribute?, parts, List.flatMap_map, Target.attributes,
      flatMap_attributes_node]
  | value v => cases v <;> simp [attributes, attribute?, parts, AttributeValue.attributes]
  | node n =>
    cases n <;> simp [attributes, attribute?, parts, List.flatMap_map, Node.attributes,
      flatMap_attributes_node]

/-- A part is smaller than what it is a part of. -/
theorem sizeOf_lt_of_mem_parts {x y : Piece} (hy : y ∈ x.parts) : sizeOf y < sizeOf x := by
  unfold parts at hy
  split at hy <;> simp at hy ⊢ <;> grind [→ List.sizeOf_lt_of_mem]

/-! ## Surveys -/

theorem attributeAt?_cons (x : Piece) (n : Nat) (l : Address) :
    x.attributeAt? (n :: l) = x.parts[n]?.bind fun y => y.attributeAt? l := by
  rw [attributeAt?, at?]
  cases x.parts[n]? <;> rfl

/-- The addresses of the attributes in a piece with what stands there, each once and in the order
of reading. -/
structure IsSurvey (x : Piece) (found : List (Address × Attribute)) : Prop where
  increasing : found.Pairwise (·.1 < ·.1)
  mem_iff : ∀ l a, (l, a) ∈ found ↔ x.attributeAt? l = some a

/-- **The attributes of a piece** are those that a survey finds. -/
theorem exists_survey (x : Piece) :
    ∃ found, x.IsSurvey found ∧ x.attributes = found.map (·.2) := by
  obtain ⟨found, hincreasing, hmem, hattributes⟩ :=
    GlyphTrim.exists_survey sizeOf_lt_of_mem_parts (fun _ => rfl) attributeAt?_cons attributes_eq x
  exact ⟨found, ⟨hincreasing, hmem⟩, hattributes⟩

end Piece

end GlyphTrim.Tsx
