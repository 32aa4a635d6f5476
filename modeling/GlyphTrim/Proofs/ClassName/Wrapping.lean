import GlyphTrim.Proofs.ClassName.Grammar
import GlyphTrim.Proofs.Tsx.Bare

/-!
# What wrappings change

Expressions with the same bare form differ in their wrappings only. They stand for the same values,
and they have gaps in the same contexts. The gaps are also described in the same way, with one
exception: a computed key is described together with its wrappings, so a wrapped key is called an
expression, whatever is in it (`resolve_of_bare_eq`).
-/

namespace GlyphTrim.ClassName

open Text Tsx

/-! ## Values -/

theorem values_resolveSlot_bare (start : String) (e : Expr) :
    (resolveSlot start e.bare).values = (resolveSlot start e).values := by
  cases e with
  | wrapped place how e types =>
    rw [Expr.bare, resolveSlot]
    exact values_resolveSlot_bare start e
  | conditional place test yes no =>
    rw [Expr.bare, resolveSlot, resolveSlot, Resolution.values_append, Resolution.values_append,
      values_resolveSlot_bare start yes, values_resolveSlot_bare start no]
  | _ => simp [Expr.bare, resolveSlot]

theorem values_resolveSpans_bare (before : String) (spans : List Span) :
    (resolveSpans before (spans.map Span.bare)).values = (resolveSpans before spans).values := by
  induction spans generalizing before with
  | nil => rfl
  | cons span rest ih =>
    obtain ⟨slot, tail⟩ := span
    rw [List.map_cons, Span.bare, resolveSpans, resolveSpans]
    simp only [Resolution.values_append, Resolution.values_tokens, Resolution.values_known,
      values_resolveSlot_bare, ih, List.isEmpty_map]

theorem values_resolveTemplate_bare (head : String) (spans : List Span) :
    (resolveTemplate head (spans.map Span.bare)).values = (resolveTemplate head spans).values := by
  rw [resolveTemplate, resolveTemplate, Resolution.values_append, Resolution.values_append,
    values_resolveSpans_bare, List.isEmpty_map]

theorem values_resolveMember_bare (m : Member) :
    (resolveMember m.bare).values = (resolveMember m).values := by
  rcases m with ⟨_ | _ | _ | _, _⟩ | _ | _ | _ | _ <;> simp [Member.bare, Key.bare, resolveMember]

theorem values_resolveArgument_plain_bare (e : Expr) :
    (resolveArgument (.plain e.bare)).values = (resolveArgument (.plain e)).values := by
  cases e with
  | wrapped place how e types =>
    rw [Expr.bare]
    exact values_resolveArgument_plain_bare e
  | template place head spans =>
    rw [Expr.bare, Span.bareAll_eq_map]
    exact values_resolveTemplate_bare head spans
  | object place members =>
    simp only [Expr.bare, resolveArgument, unwrap, Member.bareAll_eq_map, values_resolveAll,
      List.flatMap_map, values_resolveMember_bare]
  | _ => rfl

theorem values_resolveArgument_bare (a : Item) :
    (resolveArgument a.bare).values = (resolveArgument a).values := by
  cases a with
  | plain e => exact values_resolveArgument_plain_bare e
  | spread place e => rfl
  | hole => rfl

theorem values_resolve_bare (e : Expr) : (resolve e.bare).values = (resolve e).values := by
  cases e with
  | wrapped place how e types =>
    rw [Expr.bare, resolve]
    exact values_resolve_bare e
  | conditional place test yes no =>
    rw [Expr.bare, resolve, resolve, Resolution.values_append, Resolution.values_append,
      values_resolve_bare yes, values_resolve_bare no]
  | template place head spans =>
    rw [Expr.bare, resolve, resolve, Span.bareAll_eq_map, values_resolveTemplate_bare]
  | call place callee args types =>
    rw [Expr.bare, resolve, resolve]
    simp only [Item.bareAll_eq_map, values_resolveAll, List.flatMap_map,
      values_resolveArgument_bare]
  | _ => simp [Expr.bare, resolve]

/-! ## Gaps -/

theorem describe_bare (e : Expr) : describe e.bare = describe (unwrap e) := by
  cases e with
  | wrapped place how e types =>
    rw [Expr.bare, unwrap]
    exact describe_bare e
  | _ => rfl

theorem understands_bare (r : GapReason) (e : Expr) : understands r e.bare = understands r e := by
  cases e with
  | wrapped place how e types =>
    rw [Expr.bare]
    exact understands_bare r e
  | _ => cases r <;> rfl

namespace Part

/-- The part without its wrappings and places. -/
def bare : Part → Part
  | operand r e => operand r e.bare
  | spread _ => spread 0
  | key e => key e.bare

theorem ofSpan_bare (s : Span) : ofSpan s.bare = (ofSpan s).map bare := by
  cases s
  rfl

theorem ofItem_bare (i : Item) : ofItem i.bare = (ofItem i).map bare := by
  cases i <;> rfl

theorem ofMember_bare (m : Member) : ofMember m.bare = (ofMember m).map bare := by
  rcases m with ⟨_ | _ | _ | _, _⟩ | _ | _ | _ | _ <;> rfl

theorem inside_unwrap_bare (r : GapReason) (e : Expr) :
    inside r (unwrap e.bare) = (inside r (unwrap e)).map bare := by
  cases e with
  | wrapped place how e types =>
    rw [Expr.bare, unwrap]
    exact inside_unwrap_bare r e
  | template place head spans =>
    rw [Expr.bare, Span.bareAll_eq_map]
    cases r <;> simp [unwrap, inside, List.flatMap_map, List.map_flatMap, ofSpan_bare]
  | call place callee args types =>
    rw [Expr.bare, Item.bareAll_eq_map]
    cases r <;> simp [unwrap, inside, List.flatMap_map, List.map_flatMap, ofItem_bare]
  | object place members =>
    rw [Expr.bare, Member.bareAll_eq_map]
    cases r <;> simp [unwrap, inside, List.flatMap_map, List.map_flatMap, ofMember_bare]
  | _ => cases r <;> rfl

theorem parts_bare (x : Part) : x.bare.parts = x.parts.map bare := by
  cases x with
  | operand r e => exact inside_unwrap_bare r e
  | spread place => rfl
  | key e => rfl

theorem at?_bare (x : Part) (l : Address) : x.bare.at? l = (x.at? l).map bare := by
  induction l generalizing x with
  | nil => rfl
  | cons n l ih =>
    rw [at?_cons, at?_cons, parts_bare, List.getElem?_map, Option.map_bind, Option.bind_map]
    exact Option.bind_congr fun y _ => ih y

theorem isOutside_bare (x : Part) : x.bare.isOutside = x.isOutside := by
  cases x with
  | operand r e => rw [bare, isOutside, isOutside, understands_bare]
  | spread place => rfl
  | key e => rfl

variable {x x' : Part}

theorem isOutside_eq_of_bare_eq (h : x.bare = x'.bare) : x.isOutside = x'.isOutside := by
  rw [← isOutside_bare, h, isOutside_bare]

/-- **The same stands at each address**, but for wrappings and places. -/
theorem map_bare_at?_eq (h : x.bare = x'.bare) (l : Address) :
    (x.at? l).map bare = (x'.at? l).map bare := by
  rw [← at?_bare, ← at?_bare, h]

theorem bare_eq_of_at? {y y' : Part} {l : Address} (h : x.bare = x'.bare) (hy : x.at? l = some y)
    (hy' : x'.at? l = some y') : y.bare = y'.bare := by
  simpa [hy, hy'] using map_bare_at?_eq h l

theorem compare_unknownAt? {γ : Type} (h : x.bare = x'.bare) (g : Unknown → γ) (l : Address) :
    (x.unknownAt? l).isSome = (x'.unknownAt? l).isSome ∧
      ((x.unknownAt? l).map g = (x'.unknownAt? l).map g ↔
        ∀ y y', x.at? l = some y → x'.at? l = some y' → y.isOutside = true →
          g y.unknown = g y'.unknown) := by
  have hbare := map_bare_at?_eq h l
  unfold unknownAt?
  cases hy : x.at? l with
  | none =>
    have hy' : x'.at? l = none := by simpa [hy] using hbare.symm
    simp [hy']
  | some y =>
    obtain ⟨y', hy', heq⟩ : ∃ y', x'.at? l = some y' ∧ y'.bare = y.bare := by
      simpa [hy] using hbare.symm
    by_cases hout : y.isOutside = true <;>
      simp [hy', unknown?, isOutside_eq_of_bare_eq heq, hout]

/-- The gaps of parts with the same bare form can be compared address by address. -/
theorem map_unknowns_eq_iff {γ : Type} (h : x.bare = x'.bare) (g : Unknown → γ) :
    x.unknowns.map g = x'.unknowns.map g ↔
      ∀ l y y', x.at? l = some y → x'.at? l = some y' → y.isOutside = true →
        g y.unknown = g y'.unknown := by
  obtain ⟨found, hincreasing, hmem, hfound⟩ := x.exists_survey
  obtain ⟨found', hincreasing', hmem', hfound'⟩ := x'.exists_survey
  have hsome := fun l => (compare_unknownAt? h g l).1
  rw [hfound, hfound', List.map_map, List.map_map]
  exact (map_found_eq_iff hincreasing hmem hincreasing' hmem' hsome g).trans
    (forall_congr' fun l => (compare_unknownAt? h g l).2)

end Part

/-! ## Computed keys -/

/-- What a gap says of its expression. -/
def Unknown.kind (u : Unknown) : GapReason × String := (u.reason, u.expression)

/-- Whether an expression is a wrapping. -/
def isWrapped : Expr → Bool
  | .wrapped .. => true
  | _ => false

theorem describe_eq_ite (e : Expr) :
    describe e = if isWrapped e then "expression" else describe (unwrap e) := by
  cases e <;> rfl

/-- With its wrappings, a key is described as before only if it is wrapped as before, or if what is
in the wrappings is described like them. -/
theorem describe_eq_iff {k k' : Expr} (h : k.bare = k'.bare) :
    describe k = describe k' ↔ isWrapped k = isWrapped k' ∨ describe (unwrap k) = "expression" := by
  have hinner : describe (unwrap k') = describe (unwrap k) := by
    rw [← describe_bare, ← h, describe_bare]
  rw [describe_eq_ite k, describe_eq_ite k', hinner]
  cases isWrapped k <;> cases isWrapped k' <;> simp [eq_comm]

theorem reason_unknown_eq {x x' : Part} (h : x.bare = x'.bare) :
    x.unknown.reason = x'.unknown.reason := by
  cases x <;> cases x' <;> simp_all [Part.bare, Part.unknown]

theorem kind_unknown_eq_iff {x x' : Part} (h : x.bare = x'.bare) :
    x.unknown.kind = x'.unknown.kind ↔ ∀ k k', x = .key k → x' = .key k' →
      isWrapped k = isWrapped k' ∨ describe (unwrap k) = "expression" := by
  cases x with
  | operand r e =>
    cases x' with
    | operand r' e' =>
      obtain ⟨rfl, he⟩ := Part.operand.inj h
      have hdescribe : describe (unwrap e) = describe (unwrap e') := by
        rw [← describe_bare, he, describe_bare]
      exact iff_of_true (congrArg (Prod.mk r) hdescribe) nofun
    | _ => cases h
  | spread place =>
    cases x' with
    | spread place' => exact iff_of_true rfl nofun
    | _ => cases h
  | key k =>
    cases x' with
    | key k' => simp [Part.unknown, Unknown.kind, describe_eq_iff (Part.key.inj h)]
    | _ => cases h

/-- **Wrappings** change neither the values of an expression nor the contexts of its gaps. They
change the description of a gap exactly if it is of a computed key that is wrapped in one expression
and not in the other. -/
theorem resolve_of_bare_eq {e e' : Expr} (h : e.bare = e'.bare) :
    (resolve e).values = (resolve e').values ∧
      (resolve e).unknowns.map (·.reason) = (resolve e').unknowns.map (·.reason) ∧
      ((resolve e).unknowns.map Unknown.kind = (resolve e').unknowns.map Unknown.kind ↔
        ∀ l k k', (Part.operand .expression e).at? l = some (.key k) →
          (Part.operand .expression e').at? l = some (.key k') →
            isWrapped k = isWrapped k' ∨ describe (unwrap k) = "expression") := by
  have hpart : (Part.operand .expression e).bare = (Part.operand .expression e').bare := by
    rw [Part.bare, Part.bare, h]
  refine ⟨?_, ?_, ?_⟩
  · rw [← values_resolve_bare, h, values_resolve_bare]
  · refine (Part.map_unknowns_eq_iff hpart (·.reason)).2 fun l y y' hy hy' _ => ?_
    exact reason_unknown_eq (Part.bare_eq_of_at? hpart hy hy')
  · refine (Part.map_unknowns_eq_iff hpart Unknown.kind).trans ⟨fun hkind l k k' hk hk' => ?_,
      fun hkeys l y y' hy hy' _ => ?_⟩
    · exact (kind_unknown_eq_iff (Part.bare_eq_of_at? hpart hk hk')).1 (hkind l _ _ hk hk' rfl) k k'
        rfl rfl
    · refine (kind_unknown_eq_iff (Part.bare_eq_of_at? hpart hy hy')).2 ?_
      rintro k k' rfl rfl
      exact hkeys l k k' hy hy'

/-- The call `cx({[key]: on})`. -/
def keyCall (key : Expr) : Expr :=
  .call 0 (.name 0 "cx") [.plain (.object 3 [.property (.computed key) (.name 20 "on")])] []

/-- Parentheses around the key `extra` leave no class out, but another text describes the gap. -/
theorem resolve_of_bare_eq_keyCall :
    (keyCall (.name 5 "extra")).bare =
        (keyCall (.wrapped 5 .parentheses (.name 6 "extra") [])).bare ∧
      (resolve (keyCall (.name 5 "extra"))).values =
        (resolve (keyCall (.wrapped 5 .parentheses (.name 6 "extra") []))).values ∧
      (resolve (keyCall (.name 5 "extra"))).unknowns.map Unknown.kind ≠
        (resolve (keyCall (.wrapped 5 .parentheses (.name 6 "extra") []))).unknowns.map
          Unknown.kind := by
  have hbare : (keyCall (.name 5 "extra")).bare =
      (keyCall (.wrapped 5 .parentheses (.name 6 "extra") [])).bare := rfl
  obtain ⟨hvalues, -, hkinds⟩ := resolve_of_bare_eq hbare
  refine ⟨hbare, hvalues, fun hsame => ?_⟩
  have hkey := hkinds.1 hsame [0, 0] _ _ rfl rfl
  exact absurd hkey (by decide)

/-- A computed key is not described as it is without its wrapping. -/
theorem not_forall_kinds_keyCall_wrapped :
    ¬ ∀ (place : Nat) (how : Wrapper) (key : Expr) (types : List Node),
      (resolve (keyCall (.wrapped place how key types))).unknowns.map Unknown.kind =
        (resolve (keyCall key)).unknowns.map Unknown.kind :=
  fun h => absurd (h 5 .parentheses (.name 6 "extra") []) (by decide)

end GlyphTrim.ClassName
