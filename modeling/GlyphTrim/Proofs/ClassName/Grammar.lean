import GlyphTrim.Proofs.ClassName.Context
import GlyphTrim.Proofs.ClassName.Evaluation
import GlyphTrim.Proofs.Tsx.Pieces

/-!
# Literal expressions and their gaps

An expression is *literal* if it is put together from strings in the ways that the resolution knows
(`IsLiteral`). What counts depends on the context: a slot is a choice of strings, an argument a
string, a template or an object with written keys. Literal expressions are the ones that leave no
gap. In any other expression the resolution goes down from context to context (`Part.parts`), and
each place where it meets something that does not belong there is one gap, in the order of reading
and with the reason of its own context (`unknowns_resolve_eq_map_outside`).
-/

namespace GlyphTrim.ClassName

open Text Tsx

/-! ## The grammar -/

/-- An argument of a call from which the classes can be read: a string, a template whose slots are
choices, or an object without computed keys in its properties. A place that is left empty gives
nothing. -/
inductive IsLiteralArgument : Item → Prop
  | hole : IsLiteralArgument .hole
  | string {e : Expr} {place : Nat} {value : String} (h : unwrap e = .string place value) :
      IsLiteralArgument (.plain e)
  | template {e : Expr} {place : Nat} {head : String} {spans : List Span}
      (h : unwrap e = .template place head spans)
      (hs : ∀ slot tail, Span.mk slot tail ∈ spans → IsChoice slot) : IsLiteralArgument (.plain e)
  | object {e : Expr} {place : Nat} {members : List Member} (h : unwrap e = .object place members)
      (hm : ∀ key value, Member.property (.computed key) value ∉ members) :
      IsLiteralArgument (.plain e)

/-- An expression from which the classes can be read. -/
inductive IsLiteral : Expr → Prop
  | string (place : Nat) (value : String) : IsLiteral (.string place value)
  | wrapped {e : Expr} (place : Nat) (how : Wrapper) (types : List Node) (h : IsLiteral e) :
      IsLiteral (.wrapped place how e types)
  | conditional {yes no : Expr} (place : Nat) (test : Expr) (hy : IsLiteral yes)
      (hn : IsLiteral no) : IsLiteral (.conditional place test yes no)
  | template {spans : List Span} (place : Nat) (head : String)
      (hs : ∀ slot tail, Span.mk slot tail ∈ spans → IsChoice slot) :
      IsLiteral (.template place head spans)
  | call {args : List Item} (place : Nat) (callee : Expr) (types : List Node)
      (ha : ∀ a ∈ args, IsLiteralArgument a) : IsLiteral (.call place callee args types)

theorem unknowns_resolveSlot_eq_nil_iff {start : String} {e : Expr} :
    (resolveSlot start e).unknowns = [] ↔ IsChoice e := by
  fun_induction resolveSlot start e with
  | case1 place how e types ih =>
    rw [ih]
    refine ⟨.wrapped place how types, fun h => ?_⟩
    cases h with
    | wrapped _ _ _ h => exact h
  | case2 place value => exact iff_of_true rfl (.string place value)
  | case3 place test yes no ihy ihn =>
    rw [Resolution.unknowns_append, List.append_eq_nil_iff, ihy, ihn]
    refine ⟨fun h => .conditional place test h.1 h.2, fun h => ?_⟩
    cases h with
    | conditional _ _ hy hn => exact ⟨hy, hn⟩
  | case4 e hwrapped hstring hconditional =>
    refine iff_of_false (Resolution.unknowns_ofUnknown_ne_nil e _) fun h => ?_
    cases h with
    | string place value => exact hstring place value rfl
    | wrapped place how types h => exact hwrapped _ _ _ _ rfl
    | conditional place test hy hn => exact hconditional _ _ _ _ rfl

theorem unknowns_resolveSpans_eq_nil_iff {before : String} {spans : List Span} :
    (resolveSpans before spans).unknowns = [] ↔
      ∀ slot tail, Span.mk slot tail ∈ spans → IsChoice slot := by
  induction spans generalizing before with
  | nil => simp [resolveSpans]
  | cons span rest ih =>
    obtain ⟨slot, tail⟩ := span
    simp only [resolveSpans, Resolution.unknowns_append, Resolution.unknowns_tokens,
      Resolution.unknowns_known, List.append_nil, List.append_eq_nil_iff, ih,
      unknowns_resolveSlot_eq_nil_iff, List.mem_cons, Span.mk.injEq]
    constructor
    · rintro ⟨hslot, hrest⟩ slot' tail' (⟨rfl, -⟩ | hmem)
      · exact hslot
      · exact hrest slot' tail' hmem
    · exact fun h => ⟨h slot tail (.inl ⟨rfl, rfl⟩), fun slot' tail' hmem => h _ _ (.inr hmem)⟩

theorem unknowns_resolveMembers_eq_nil_iff {members : List Member} :
    (resolveAll resolveMember members).unknowns = [] ↔
      ∀ key value, Member.property (.computed key) value ∉ members := by
  rw [unknowns_resolveAll, List.flatMap_eq_nil_iff]
  constructor
  · intro h key value hmem
    exact Resolution.unknowns_ofUnknown_ne_nil key _ (h _ hmem)
  · intro h m hm
    unfold resolveMember
    split
    · rfl
    · exact absurd hm (h _ _)
    · rfl

theorem unknowns_resolveArgument_eq_nil_iff {a : Item} :
    (resolveArgument a).unknowns = [] ↔ IsLiteralArgument a := by
  unfold resolveArgument
  split
  · exact iff_of_false (by simp [Resolution.unknown]) fun h => by cases h
  · exact iff_of_true rfl .hole
  · rename_i e
    split
    · exact iff_of_true rfl (.string ‹_›)
    · rename_i h
      rw [unknowns_resolveMembers_eq_nil_iff]
      refine ⟨.object h, fun ha => ?_⟩
      cases ha with
      | object h' hm =>
        obtain ⟨-, rfl⟩ := Expr.object.inj (h.symm.trans h')
        exact hm
      | string h' => exact absurd (h.symm.trans h') (by simp)
      | template h' hs => exact absurd (h.symm.trans h') (by simp)
    · rename_i h
      rw [resolveTemplate, Resolution.unknowns_append, Resolution.unknowns_known, List.nil_append,
        unknowns_resolveSpans_eq_nil_iff]
      refine ⟨.template h, fun ha => ?_⟩
      cases ha with
      | template h' hs =>
        obtain ⟨-, -, rfl⟩ := Expr.template.inj (h.symm.trans h')
        exact hs
      | string h' => exact absurd (h.symm.trans h') (by simp)
      | object h' hm => exact absurd (h.symm.trans h') (by simp)
    · rename_i hstring hobject htemplate
      refine iff_of_false (Resolution.unknowns_ofUnknown_ne_nil _ _) fun ha => ?_
      cases ha with
      | string h => exact hstring _ _ h
      | template h hs => exact htemplate _ _ _ h
      | object h hm => exact hobject _ _ h

/-- **Literal expressions** are those that leave no gap. -/
theorem unknowns_resolve_eq_nil_iff (e : Expr) : (resolve e).unknowns = [] ↔ IsLiteral e := by
  cases e with
  | wrapped place how e types =>
    rw [resolve, unknowns_resolve_eq_nil_iff e]
    refine ⟨.wrapped place how types, fun h => ?_⟩
    cases h with
    | wrapped _ _ _ h => exact h
  | string place value => exact iff_of_true rfl (.string place value)
  | conditional place test yes no =>
    rw [resolve, Resolution.unknowns_append, List.append_eq_nil_iff,
      unknowns_resolve_eq_nil_iff yes, unknowns_resolve_eq_nil_iff no]
    refine ⟨fun h => .conditional place test h.1 h.2, fun h => ?_⟩
    cases h with
    | conditional _ _ hy hn => exact ⟨hy, hn⟩
  | template place head spans =>
    rw [resolve, resolveTemplate, Resolution.unknowns_append, Resolution.unknowns_known,
      List.nil_append, unknowns_resolveSpans_eq_nil_iff]
    refine ⟨.template place head, fun h => ?_⟩
    cases h with
    | template _ _ hs => exact hs
  | call place callee args types =>
    rw [resolve]
    simp only [unknowns_resolveAll, List.flatMap_eq_nil_iff, unknowns_resolveArgument_eq_nil_iff]
    refine ⟨.call place callee types, fun h => ?_⟩
    cases h with
    | call _ _ _ ha => exact ha
  | _ => exact iff_of_false (Resolution.unknowns_ofUnknown_ne_nil _ _) fun h => by cases h

/-! ## What the resolution looks at -/

/-- Something in an expression that the resolution looks at. -/
inductive Part
  /-- An expression in the context that the reason names. -/
  | operand (r : GapReason) (e : Expr)
  /-- A spread argument. -/
  | spread (place : Nat)
  /-- The computed key of a property. -/
  | key (e : Expr)

namespace Part

def ofSpan : Span → List Part
  | .mk slot _ => [operand .templateSlot slot]

def ofItem : Item → List Part
  | .plain e => [operand .helperArgument e]
  | .spread place _ => [spread place]
  | .hole => []

def ofMember : Member → List Part
  | .property (.computed e) _ => [key e]
  | _ => []

/-- What the resolution looks at right inside an expression without wrappings. -/
def inside : GapReason → Expr → List Part
  | .expression, .conditional _ _ yes no => [operand .expression yes, operand .expression no]
  | .templateSlot, .conditional _ _ yes no => [operand .templateSlot yes, operand .templateSlot no]
  | .expression, .template _ _ spans | .helperArgument, .template _ _ spans => spans.flatMap ofSpan
  | .expression, .call _ _ args _ => args.flatMap ofItem
  | .helperArgument, .object _ members => members.flatMap ofMember
  | _, _ => []

/-- What the resolution looks at right inside a part, in the order of reading. -/
def parts : Part → List Part
  | operand r e => inside r (unwrap e)
  | spread _ | key _ => []

/-- The part at an address. -/
def at? (x : Part) : Address → Option Part
  | [] => some x
  | n :: rest =>
    match x.parts[n]? with
    | some y => y.at? rest
    | none => none

/-- Whether a part does not belong where it stands: an expression of a shape that is not understood
in its context, and every spread argument and computed key. -/
def isOutside : Part → Bool
  | operand r e => !understands r e
  | spread _ | key _ => true

/-- The gap that a part leaves if it does not belong where it stands. A key is described with its
wrappings. -/
def unknown : Part → Unknown
  | operand r e => ⟨(unwrap e).place, r, describe (unwrap e)⟩
  | spread place => ⟨place, .helperArgument, "spread argument"⟩
  | key e => ⟨e.place, .helperArgument, describe e⟩

/-- The gap of a part itself, not of what is in it. -/
def unknown? (x : Part) : Option Unknown := if x.isOutside then some x.unknown else none

/-- The gaps of a part and of what is in it. -/
def unknowns : Part → List Unknown
  | operand r e => (resolveIn "" r e).unknowns
  | spread place => [(spread place).unknown]
  | key e => [(key e).unknown]

/-- Whether a part belongs to the grammar of its context. -/
def Fits : Part → Prop
  | operand .expression e => IsLiteral e
  | operand .templateSlot e => IsChoice e
  | operand .helperArgument e => IsLiteralArgument (.plain e)
  | spread _ | key _ => False

/-! ## Parts and their gaps -/

theorem unknowns_resolveSpans (before : String) (spans : List Span) :
    (resolveSpans before spans).unknowns = (spans.flatMap ofSpan).flatMap unknowns := by
  induction spans generalizing before with
  | nil => rfl
  | cons span rest ih =>
    obtain ⟨slot, tail⟩ := span
    rw [List.flatMap_cons, List.flatMap_append, ← ih tail, resolveSpans]
    simp only [Resolution.unknowns_append, Resolution.unknowns_tokens, Resolution.unknowns_known,
      List.append_nil]
    rw [unknowns_resolveSlot_start _ ""]
    simp [ofSpan, unknowns, resolveIn]

theorem unknowns_resolveTemplate (head : String) (spans : List Span) :
    (resolveTemplate head spans).unknowns = (spans.flatMap ofSpan).flatMap unknowns := by
  rw [resolveTemplate, Resolution.unknowns_append, unknowns_resolveSpans]
  rfl

theorem unknowns_resolveArguments (args : List Item) :
    (resolveAll resolveArgument args).unknowns = (args.flatMap ofItem).flatMap unknowns := by
  rw [unknowns_resolveAll, List.flatMap_assoc]
  refine List.flatMap_congr fun a _ => ?_
  cases a with
  | plain e => exact (List.append_nil _).symm
  | spread place e => rfl
  | hole => rfl

theorem unknowns_resolveMembers (members : List Member) :
    (resolveAll resolveMember members).unknowns = (members.flatMap ofMember).flatMap unknowns := by
  rw [unknowns_resolveAll, List.flatMap_assoc]
  refine List.flatMap_congr fun m _ => ?_
  rcases m with ⟨_ | _ | _ | _, _⟩ | _ | _ | _ | _ <;> rfl

/-- What is outside is not looked into. -/
theorem parts_eq_nil {x : Part} (h : x.isOutside = true) : x.parts = [] := by
  cases x with
  | operand r e =>
    have hr : understands r e = false := by simpa [isOutside] using h
    unfold understands at hr
    rw [parts]
    generalize unwrap e = u at hr ⊢
    cases r <;> cases u <;> first | rfl | cases hr
  | spread place => rfl
  | key e => rfl

/-- **The gaps of a part** are its own, then those of what is in it. -/
theorem unknowns_eq (x : Part) : x.unknowns = x.unknown?.toList ++ x.parts.flatMap unknowns := by
  cases x with
  | operand r e =>
    by_cases h : understands r e = true
    · have hown : (operand r e).unknown? = none := by simp [unknown?, isOutside, h]
      rw [hown, Option.toList_none, List.nil_append, unknowns, ← resolveIn_unwrap, parts]
      obtain ⟨place, value, hu⟩ | ⟨place, test, yes, no, hu, hr⟩ | ⟨place, head, spans, hu, hr⟩ |
        ⟨place, callee, args, types, hu, rfl⟩ | ⟨place, members, hu, rfl⟩ := understands_cases h
      · obtain ⟨text, htext⟩ := resolveIn_string (r := r) "" place value
        rw [hu, htext]
        cases r <;> rfl
      · rw [hu, resolveIn_conditional "" hr]
        cases r with
        | helperArgument => exact absurd rfl hr
        | expression => simp [inside, unknowns]
        | templateSlot => simp [inside, unknowns]
      · rw [hu, resolveIn_template "" hr, unknowns_resolveTemplate]
        cases r with
        | templateSlot => exact absurd rfl hr
        | expression => rfl
        | helperArgument => rfl
      · rw [hu, resolveIn, resolve, unknowns_resolveArguments, inside]
      · rw [hu]
        exact unknowns_resolveMembers members
    · have hr : understands r e = false := by simpa using h
      have hout : (operand r e).isOutside = true := by simp [isOutside, hr]
      rw [parts_eq_nil hout, unknown?, if_pos hout, unknowns, resolveIn_of_not_understands _ hr]
      rfl
  | spread place => rfl
  | key e => rfl

theorem unknowns_eq_nil_iff {x : Part} : x.unknowns = [] ↔ x.Fits := by
  cases x with
  | operand r e =>
    cases r with
    | expression => exact unknowns_resolve_eq_nil_iff e
    | templateSlot => exact unknowns_resolveSlot_eq_nil_iff
    | helperArgument => exact unknowns_resolveArgument_eq_nil_iff
  | spread place => exact iff_of_false (List.cons_ne_nil _ _) id
  | key e => exact iff_of_false (List.cons_ne_nil _ _) id

/-- **The grammar, shape by shape.** -/
theorem fits_iff {x : Part} : x.Fits ↔ x.isOutside = false ∧ ∀ y ∈ x.parts, y.Fits := by
  rw [← unknowns_eq_nil_iff, unknowns_eq, List.append_eq_nil_iff, List.flatMap_eq_nil_iff]
  simp only [unknowns_eq_nil_iff]
  refine and_congr_left' ?_
  cases h : x.isOutside <;> simp [unknown?, h]

theorem sizeOf_lt_of_mem_flatMap {α : Type} [SizeOf α] {f : α → List Part} {as : List α} {y : Part}
    (hf : ∀ a, y ∈ f a → sizeOf y < 2 + sizeOf a) (hy : y ∈ as.flatMap f) :
    sizeOf y < 2 + sizeOf as := by
  obtain ⟨a, ha, hya⟩ := List.mem_flatMap.1 hy
  have hlt := List.sizeOf_lt_of_mem ha
  have hpart := hf a hya
  omega

theorem sizeOf_lt_of_mem_ofSpan {s : Span} {y : Part} (hy : y ∈ ofSpan s) :
    sizeOf y < 2 + sizeOf s := by
  cases s
  obtain rfl := List.mem_singleton.1 hy
  simp only [operand.sizeOf_spec, GapReason.templateSlot.sizeOf_spec, Span.mk.sizeOf_spec]
  omega

theorem sizeOf_lt_of_mem_ofItem {i : Item} {y : Part} (hy : y ∈ ofItem i) :
    sizeOf y < 2 + sizeOf i := by
  cases i with
  | plain e =>
    obtain rfl := List.mem_singleton.1 hy
    simp only [operand.sizeOf_spec, GapReason.helperArgument.sizeOf_spec, Item.plain.sizeOf_spec]
    omega
  | spread place e =>
    obtain rfl := List.mem_singleton.1 hy
    simp only [spread.sizeOf_spec, Item.spread.sizeOf_spec]
    omega
  | hole => exact absurd hy List.not_mem_nil

theorem sizeOf_lt_of_mem_ofMember {m : Member} {y : Part} (hy : y ∈ ofMember m) :
    sizeOf y < 2 + sizeOf m := by
  unfold ofMember at hy
  split at hy
  · obtain rfl := List.mem_singleton.1 hy
    simp only [key.sizeOf_spec, Member.property.sizeOf_spec, Key.computed.sizeOf_spec]
    omega
  · exact absurd hy List.not_mem_nil

theorem sizeOf_lt_of_mem_branches {r : GapReason} {place : Nat} {test yes no : Expr} {y : Part}
    (hy : y ∈ [operand r yes, operand r no]) :
    sizeOf y < sizeOf (operand r (.conditional place test yes no)) := by
  simp only [List.mem_cons, List.not_mem_nil, or_false] at hy
  rw [operand.sizeOf_spec, Expr.conditional.sizeOf_spec]
  obtain rfl | rfl := hy <;> rw [operand.sizeOf_spec] <;> omega

theorem sizeOf_lt_of_mem_inside {r : GapReason} {e : Expr} {y : Part} (hy : y ∈ inside r e) :
    sizeOf y < sizeOf (operand r e) := by
  unfold inside at hy
  split at hy
  · exact sizeOf_lt_of_mem_branches hy
  · exact sizeOf_lt_of_mem_branches hy
  · have hlt := sizeOf_lt_of_mem_flatMap (fun _ => sizeOf_lt_of_mem_ofSpan) hy
    simp only [operand.sizeOf_spec, Expr.template.sizeOf_spec]
    omega
  · have hlt := sizeOf_lt_of_mem_flatMap (fun _ => sizeOf_lt_of_mem_ofSpan) hy
    simp only [operand.sizeOf_spec, Expr.template.sizeOf_spec]
    omega
  · have hlt := sizeOf_lt_of_mem_flatMap (fun _ => sizeOf_lt_of_mem_ofItem) hy
    simp only [operand.sizeOf_spec, Expr.call.sizeOf_spec]
    omega
  · have hlt := sizeOf_lt_of_mem_flatMap (fun _ => sizeOf_lt_of_mem_ofMember) hy
    simp only [operand.sizeOf_spec, Expr.object.sizeOf_spec]
    omega
  · exact absurd hy List.not_mem_nil

/-- A part is smaller than what it is a part of. -/
theorem sizeOf_lt_of_mem_parts {x y : Part} (hy : y ∈ x.parts) : sizeOf y < sizeOf x := by
  cases x with
  | operand r e =>
    have hlt := sizeOf_lt_of_mem_inside hy
    have hle := sizeOf_unwrap_le e
    rw [operand.sizeOf_spec] at hlt ⊢
    omega
  | spread place => exact absurd hy List.not_mem_nil
  | key e => exact absurd hy List.not_mem_nil

theorem at?_cons (x : Part) (n : Nat) (l : Address) :
    x.at? (n :: l) = x.parts[n]?.bind fun y => y.at? l := by
  rw [at?]
  cases x.parts[n]? <;> rfl

theorem at?_append (x : Part) (k l : Address) :
    x.at? (k ++ l) = (x.at? k).bind fun y => y.at? l := by
  induction k generalizing x with
  | nil => rfl
  | cons n k ih =>
    rw [List.cons_append, at?_cons, at?_cons, Option.bind_assoc]
    exact Option.bind_congr fun y _ => ih y

/-- Behind the address of something outside there is nothing. -/
theorem eq_of_prefix {x y z : Part} {k l : Address} (hk : x.at? k = some y)
    (hy : y.isOutside = true) (hl : x.at? l = some z) (h : k <+: l) : k = l := by
  obtain ⟨rest, rfl⟩ := h
  cases rest with
  | nil => exact (List.append_nil k).symm
  | cons n rest =>
    rw [at?_append, hk, Option.bind_some, at?_cons, parts_eq_nil hy] at hl
    simp at hl

/-- The gap at an address. -/
def unknownAt? (x : Part) (l : Address) : Option Unknown := (x.at? l).bind unknown?

theorem unknownAt?_eq_some_iff {x : Part} {l : Address} {u : Unknown} :
    x.unknownAt? l = some u ↔ ∃ y, x.at? l = some y ∧ y.isOutside = true ∧ u = y.unknown := by
  simp only [unknownAt?, Option.bind_eq_some_iff, unknown?, Option.ite_none_right_eq_some,
    Option.some.injEq, eq_comm (a := u)]

/-- **The gaps of a part** are those that a survey finds. -/
theorem exists_survey (x : Part) :
    ∃ found : List (Address × Unknown), found.Pairwise (·.1 < ·.1) ∧
      (∀ l u, (l, u) ∈ found ↔ x.unknownAt? l = some u) ∧ x.unknowns = found.map (·.2) :=
  GlyphTrim.exists_survey sizeOf_lt_of_mem_parts (fun _ => rfl)
    (fun x n l => by rw [unknownAt?, at?_cons, Option.bind_assoc]; rfl) unknowns_eq x

end Part

/-- **The gaps of an expression.** A literal expression leaves none, and any expression that is not
literal leaves some. What belongs to the grammar of its context is what is not outside it by its own
shape and has parts that belong to theirs. There is one gap for each thing that the resolution looks
at and that is outside: none of these things is inside another, the gaps come in the order of
reading, and each has the reason of the context in which its thing stands. -/
theorem unknowns_resolve_eq_map_outside (e : Expr) :
    ((resolve e).unknowns = [] ↔ IsLiteral e) ∧
      (∀ x : Part, x.Fits ↔ x.isOutside = false ∧ ∀ y ∈ x.parts, y.Fits) ∧
      ∃ found : List (Address × Unknown),
        found.Pairwise (fun f g => f.1 < g.1 ∧ ¬ f.1 <+: g.1) ∧
          (∀ l u, (l, u) ∈ found ↔ ∃ x, (Part.operand .expression e).at? l = some x ∧
            x.isOutside = true ∧ u = x.unknown) ∧
          (resolve e).unknowns = found.map (·.2) := by
  refine ⟨unknowns_resolve_eq_nil_iff e, fun x => Part.fits_iff, ?_⟩
  obtain ⟨found, hincreasing, hmem, hunknowns⟩ := Part.exists_survey (.operand .expression e)
  have hfound : ∀ l u, (l, u) ∈ found ↔ ∃ x, (Part.operand .expression e).at? l = some x ∧
      x.isOutside = true ∧ u = x.unknown :=
    fun l u => (hmem l u).trans Part.unknownAt?_eq_some_iff
  refine ⟨found, hincreasing.imp_of_mem fun {f g} hf hg hlt => ⟨hlt, fun hprefix => ?_⟩, hfound,
    hunknowns⟩
  obtain ⟨x, hx, hout, -⟩ := (hfound f.1 f.2).1 hf
  obtain ⟨y, hy, -, -⟩ := (hfound g.1 g.2).1 hg
  rw [Part.eq_of_prefix hx hout hy hprefix] at hlt
  exact lt_irrefl _ hlt

end GlyphTrim.ClassName
