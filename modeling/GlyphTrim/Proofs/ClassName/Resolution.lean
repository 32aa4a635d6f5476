import GlyphTrim.ClassName.Resolution

/-!
# Resolutions put together

The values and the unknowns of resolutions that stand one after another are those of the parts, in
order. A template is such a row: its static texts and its slots, in the order in which they are cut
(`resolveTemplate_eq_resolveParts`).
-/

namespace GlyphTrim.ClassName

open Text Tsx

namespace Resolution

@[simp] theorem values_append (a b : Resolution) : (a ++ b).values = a.values ++ b.values := rfl

@[simp] theorem unknowns_append (a b : Resolution) :
    (a ++ b).unknowns = a.unknowns ++ b.unknowns := rfl

@[simp] theorem values_known (vs : List String) : (known vs).values = vs := rfl

@[simp] theorem unknowns_known (vs : List String) : (known vs).unknowns = [] := rfl

@[simp] theorem values_tokens (a : Resolution) :
    a.tokens.values = a.values.flatMap classTokens := rfl

@[simp] theorem unknowns_tokens (a : Resolution) : a.tokens.unknowns = a.unknowns := rfl

@[simp] theorem values_ofUnknown (e : Expr) (reason : GapReason) :
    (ofUnknown e reason).values = [] := rfl

theorem unknowns_ofUnknown_ne_nil (e : Expr) (reason : GapReason) :
    (ofUnknown e reason).unknowns ≠ [] := by
  simp [ofUnknown, unknown]

theorem ext_of {a b : Resolution} (hvalues : a.values = b.values)
    (hunknowns : a.unknowns = b.unknowns) : a = b := by
  obtain ⟨values, unknowns⟩ := a
  obtain ⟨rfl, rfl⟩ : values = b.values ∧ unknowns = b.unknowns := ⟨hvalues, hunknowns⟩
  rfl

theorem append_assoc (a b c : Resolution) : a ++ b ++ c = a ++ (b ++ c) :=
  ext_of (List.append_assoc ..) (List.append_assoc ..)

end Resolution

/-- Without its wrappings an expression is no larger. -/
theorem sizeOf_unwrap_le (e : Expr) : sizeOf (unwrap e) ≤ sizeOf e := by
  fun_induction unwrap e with
  | case1 place how e types ih => simp only [Expr.wrapped.sizeOf_spec]; omega
  | case2 e he => exact Nat.le_refl _

/-! ## Templates by their pieces -/

/-- What the pieces of a template stand for, one after another. `first` tells that the template
begins with them. -/
def resolveParts : Bool → List TemplatePart → Resolution
  | _, [] => .known []
  | first, .static text :: rest =>
    .known (freeTokens text (!first) (!rest.isEmpty)) ++ resolveParts false rest
  | _, .slot e start :: rest =>
    (resolveSlot (start.getD "") e).tokens ++ resolveParts false rest

theorem isEmpty_spanParts (before : String) (spans : List Span) :
    (spanParts before spans).isEmpty = spans.isEmpty := by
  cases spans with
  | nil => rfl
  | cons span rest => cases span; rfl

theorem resolveParts_spanParts (before : String) (spans : List Span) :
    resolveParts false (spanParts before spans) = resolveSpans before spans := by
  induction spans generalizing before with
  | nil => rfl
  | cons span rest ih =>
    obtain ⟨slot, tail⟩ := span
    rw [spanParts, resolveParts, resolveParts, ih, isEmpty_spanParts, resolveSpans,
      Resolution.append_assoc, Bool.not_false]

/-- **A template stands for what its pieces stand for**, in order. -/
theorem resolveTemplate_eq_resolveParts (head : String) (spans : List Span) :
    resolveTemplate head spans = resolveParts true (templateParts head spans) := by
  rw [templateParts, resolveParts, resolveParts_spanParts, isEmpty_spanParts, resolveTemplate,
    Bool.not_true]

/-! ## Slots and lists -/

/-- The gaps of a slot do not depend on the prefix in front of it. -/
theorem unknowns_resolveSlot_start (start start' : String) (e : Expr) :
    (resolveSlot start e).unknowns = (resolveSlot start' e).unknowns := by
  fun_induction resolveSlot start e with
  | case1 place how e types ih => rw [ih, resolveSlot]
  | case2 place value => rfl
  | case3 place test yes no ihy ihn =>
    rw [Resolution.unknowns_append, ihy, ihn, resolveSlot, Resolution.unknowns_append]
  | case4 e hwrapped hstring hconditional => rw [resolveSlot.eq_4 _ _ hwrapped hstring hconditional]

theorem values_resolveAll {α : Type} (f : α → Resolution) (as : List α) :
    (resolveAll f as).values = as.flatMap fun a => (f a).values := by
  induction as with
  | nil => rfl
  | cons a as ih => rw [resolveAll, Resolution.values_append, ih, List.flatMap_cons]

theorem unknowns_resolveAll {α : Type} (f : α → Resolution) (as : List α) :
    (resolveAll f as).unknowns = as.flatMap fun a => (f a).unknowns := by
  induction as with
  | nil => rfl
  | cons a as ih => rw [resolveAll, Resolution.unknowns_append, ih, List.flatMap_cons]

end GlyphTrim.ClassName
