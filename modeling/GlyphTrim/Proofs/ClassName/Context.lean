import GlyphTrim.Proofs.ClassName.Resolution

/-!
# The contexts of an expression

An expression is resolved in one of three contexts: as a class attribute or a branch of one, as a
slot of a template, or as an argument of a call. The reason of a gap names the context, so contexts
are told apart by reasons here. `resolveIn` is the resolution in a context, with one equation for
each shape of an expression; a shape that is not understood in a context is a gap as a whole
(`resolveIn_of_not_understands`).
-/

namespace GlyphTrim.ClassName

open Text Tsx

/-! ## Resolutions one after another -/

namespace Resolution

@[simp] theorem known_nil_append (a : Resolution) : known [] ++ a = a := rfl

@[simp] theorem append_known_nil (a : Resolution) : a ++ known [] = a :=
  ext_of (List.append_nil _) (List.append_nil _)

theorem tokens_append (a b : Resolution) : (a ++ b).tokens = a.tokens ++ b.tokens :=
  ext_of List.flatMap_append rfl

@[simp] theorem tokens_ofUnknown (e : Expr) (reason : GapReason) :
    (ofUnknown e reason).tokens = ofUnknown e reason := rfl

end Resolution

theorem resolveAll_append {α : Type} (f : α → Resolution) (as bs : List α) :
    resolveAll f (as ++ bs) = resolveAll f as ++ resolveAll f bs :=
  Resolution.ext_of (by simp [values_resolveAll]) (by simp [unknowns_resolveAll])

/-! ## Resolution in a context -/

/-- What an expression stands for in a context. A slot has the prefix `start` in front of it. -/
def resolveIn (start : String) : GapReason → Expr → Resolution
  | .expression, e => resolve e
  | .templateSlot, e => (resolveSlot start e).tokens
  | .helperArgument, e => resolveArgument (.plain e)

/-- Whether an expression, apart from its wrappings, has a shape that the resolution looks into in
a context. -/
def understands (r : GapReason) (e : Expr) : Bool :=
  match r, unwrap e with
  | .expression, .string .. | .expression, .conditional .. | .expression, .template ..
  | .expression, .call .. => true
  | .templateSlot, .string .. | .templateSlot, .conditional .. => true
  | .helperArgument, .string .. | .helperArgument, .template ..
  | .helperArgument, .object .. => true
  | _, _ => false

/-- **What is understood** in which context. -/
theorem understands_cases {r : GapReason} {e : Expr} (h : understands r e = true) :
    (∃ place value, unwrap e = .string place value) ∨
    (∃ place test yes no, unwrap e = .conditional place test yes no ∧ r ≠ .helperArgument) ∨
    (∃ place head spans, unwrap e = .template place head spans ∧ r ≠ .templateSlot) ∨
    (∃ place callee args types, unwrap e = .call place callee args types ∧ r = .expression) ∨
    ∃ place members, unwrap e = .object place members ∧ r = .helperArgument := by
  unfold understands at h
  generalize unwrap e = u at h ⊢
  cases u with
  | string place value => exact .inl ⟨place, value, rfl⟩
  | conditional place test yes no =>
    exact .inr (.inl ⟨place, test, yes, no, rfl, by rintro rfl; cases h⟩)
  | template place head spans =>
    exact .inr (.inr (.inl ⟨place, head, spans, rfl, by rintro rfl; cases h⟩))
  | call place callee args types =>
    refine .inr (.inr (.inr (.inl ⟨place, callee, args, types, rfl, ?_⟩)))
    cases r <;> first | rfl | cases h
  | object place members =>
    refine .inr (.inr (.inr (.inr ⟨place, members, rfl, ?_⟩)))
    cases r <;> first | rfl | cases h
  | _ => cases r <;> cases h

variable {r : GapReason} (start : String)

@[simp] theorem resolveIn_wrapped (place : Nat) (how : Wrapper) (e : Expr) (types : List Node) :
    resolveIn start r (.wrapped place how e types) = resolveIn start r e := by
  cases r with
  | expression => rw [resolveIn, resolve, resolveIn]
  | templateSlot => rw [resolveIn, resolveSlot, resolveIn]
  | helperArgument => rw [resolveIn, resolveArgument, unwrap, resolveIn, resolveArgument]

/-- **Wrappings are looked through** in every context. -/
theorem resolveIn_unwrap (e : Expr) : resolveIn start r (unwrap e) = resolveIn start r e := by
  fun_induction unwrap e with
  | case1 place how e types ih => rw [ih, resolveIn_wrapped]
  | case2 e he => rfl

theorem resolveIn_string (place : Nat) (value : String) : ∃ text,
    resolveIn start r (.string place value) = .known (classTokens text) := by
  cases r with
  | expression => exact ⟨value, rfl⟩
  | templateSlot => exact ⟨start ++ value, by simp [resolveIn, resolveSlot, Resolution.tokens,
      Resolution.known]⟩
  | helperArgument => exact ⟨value, rfl⟩

/-- A condition stands for both branches, unless it is an argument. -/
theorem resolveIn_conditional (hr : r ≠ .helperArgument) (place : Nat) (test yes no : Expr) :
    resolveIn start r (.conditional place test yes no) =
      resolveIn start r yes ++ resolveIn start r no := by
  cases r with
  | expression => rw [resolveIn, resolve, resolveIn, resolveIn]
  | templateSlot => rw [resolveIn, resolveSlot, Resolution.tokens_append, resolveIn, resolveIn]
  | helperArgument => exact absurd rfl hr

/-- A template stands for its parts, unless it is a slot of another one. -/
theorem resolveIn_template (hr : r ≠ .templateSlot) (place : Nat) (head : String)
    (spans : List Span) :
    resolveIn start r (.template place head spans) = resolveTemplate head spans := by
  cases r with
  | expression => rw [resolveIn, resolve]
  | templateSlot => exact absurd rfl hr
  | helperArgument => rfl

/-- **What is not understood in a context** is a gap as a whole. -/
theorem resolveIn_of_not_understands {e : Expr} (h : understands r e = false) :
    resolveIn start r e = .ofUnknown (unwrap e) r := by
  fun_induction unwrap e with
  | case1 place how e types ih =>
    rw [resolveIn_wrapped]
    exact ih h
  | case2 e he =>
    cases e with
    | wrapped place how inner types => exact (he place how inner types rfl).elim
    | _ =>
      cases r <;> simp_all [understands, unwrap, resolveIn, resolve, resolveSlot, resolveArgument]

end GlyphTrim.ClassName
