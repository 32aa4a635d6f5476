import GlyphTrim.Proofs.ClassName.Context

/-!
# Expressions with a hole

A hole stands where the resolution looks into an expression: at the whole, at a branch, at a slot of
a template or at an argument of a call, nested as they can be. Around the hole everything is
resolved as it is without it (`resolve_fill`). So what is not understood in the hole takes away what
a resolvable expression gives there, leaves one gap there, and changes nothing else
(`resolve_fill_not_understood`).
-/

namespace GlyphTrim.ClassName

open Text Tsx

/-- An expression with a hole in the context that the reason names, from the inside out: what is
right around the hole, and the expression with a hole where all of that stands. -/
inductive Hole : GapReason → Type
  /-- The whole expression is the hole. -/
  | whole : Hole .expression
  | wrapped {r : GapReason} (place : Nat) (how : Wrapper) (types : List Node) (outer : Hole r) :
      Hole r
  /-- The hole is the first branch of a condition. -/
  | firstBranch {r : GapReason} (hr : r ≠ .helperArgument) (place : Nat) (test no : Expr)
      (outer : Hole r) : Hole r
  /-- The hole is the second branch of a condition. -/
  | secondBranch {r : GapReason} (hr : r ≠ .helperArgument) (place : Nat) (test yes : Expr)
      (outer : Hole r) : Hole r
  /-- The hole is a slot between the slots `front` and `back`. -/
  | slot {r : GapReason} (hr : r ≠ .templateSlot) (place : Nat) (head : String)
      (front : List Span) (tail : String) (back : List Span) (outer : Hole r) : Hole .templateSlot
  /-- The hole is an argument between the arguments `front` and `back`. -/
  | argument (place : Nat) (callee : Expr) (front back : List Item) (types : List Node)
      (outer : Hole .expression) : Hole .helperArgument

/-- The text in front of what follows some slots, where `before` is the text in front of them. -/
def textBehind (before : String) : List Span → String
  | [] => before
  | .mk _ tail :: rest => textBehind tail rest

/-- What slots with the texts after them stand for, if another slot follows. -/
def resolveFront (before : String) : List Span → Resolution
  | [] => .known []
  | .mk slot tail :: rest =>
    (resolveSlot ((inferPrefix before).getD "") slot).tokens ++
      .known (freeTokens tail true true) ++ resolveFront tail rest

namespace Hole

/-- The expression with something in its hole. -/
def fill {r : GapReason} : Hole r → Expr → Expr
  | whole, e => e
  | wrapped place how types outer, e => outer.fill (.wrapped place how e types)
  | firstBranch _ place test no outer, e => outer.fill (.conditional place test e no)
  | secondBranch _ place test yes outer, e => outer.fill (.conditional place test yes e)
  | slot _ place head front tail back outer, e =>
    outer.fill (.template place head (front ++ .mk e tail :: back))
  | argument place callee front back types outer, e =>
    outer.fill (.call place callee (front ++ .plain e :: back) types)

/-- The prefix in front of the hole, if it is in a slot. -/
def start {r : GapReason} : Hole r → String
  | whole => ""
  | wrapped _ _ _ outer | firstBranch _ _ _ _ outer | secondBranch _ _ _ _ outer => outer.start
  | slot _ _ head front _ _ _ => (inferPrefix (textBehind head front)).getD ""
  | argument .. => ""

/-- What stands in front of the hole stands for. -/
def front {r : GapReason} : Hole r → Resolution
  | whole => .known []
  | wrapped _ _ _ outer | firstBranch _ _ _ _ outer => outer.front
  | secondBranch _ _ _ yes outer => outer.front ++ resolveIn outer.start r yes
  | slot _ _ head front _ _ outer =>
    outer.front ++ (.known (freeTokens head false true) ++ resolveFront head front)
  | argument _ _ front _ _ outer => outer.front ++ resolveAll resolveArgument front

/-- What stands behind the hole stands for. -/
def back {r : GapReason} : Hole r → Resolution
  | whole => .known []
  | wrapped _ _ _ outer | secondBranch _ _ _ _ outer => outer.back
  | firstBranch _ _ _ no outer => resolveIn outer.start r no ++ outer.back
  | slot _ _ _ _ tail back outer =>
    .known (freeTokens tail true !back.isEmpty) ++ resolveSpans tail back ++ outer.back
  | argument _ _ _ back _ outer => resolveAll resolveArgument back ++ outer.back

end Hole

/-! ## Around the hole -/

theorem resolveSpans_append_cons (before : String) (front : List Span) (slot : Expr)
    (tail : String) (back : List Span) :
    resolveSpans before (front ++ .mk slot tail :: back) = resolveFront before front ++
      ((resolveSlot ((inferPrefix (textBehind before front)).getD "") slot).tokens ++
        (.known (freeTokens tail true !back.isEmpty) ++ resolveSpans tail back)) := by
  induction front generalizing before with
  | nil => simp only [List.nil_append, resolveSpans, resolveFront, textBehind,
      Resolution.append_assoc, Resolution.known_nil_append]
  | cons span front ih =>
    obtain ⟨slot', tail'⟩ := span
    have hmore : (front ++ Span.mk slot tail :: back).isEmpty = false := by simp
    rw [List.cons_append, resolveSpans, hmore, ih, resolveFront, textBehind]
    simp only [Resolution.append_assoc, Bool.not_false]

/-- **The resolution around a hole** does not depend on what is in it. -/
theorem resolve_fill {r : GapReason} (h : Hole r) (e : Expr) :
    resolve (h.fill e) = h.front ++ (resolveIn h.start r e ++ h.back) := by
  induction h generalizing e with
  | whole => simp [Hole.fill, Hole.front, Hole.back, resolveIn]
  | wrapped place how types outer ih =>
    rw [Hole.fill, ih, resolveIn_wrapped, Hole.front, Hole.start, Hole.back]
  | firstBranch hr place test no outer ih =>
    rw [Hole.fill, ih, resolveIn_conditional _ hr, Hole.front, Hole.start, Hole.back,
      Resolution.append_assoc]
  | secondBranch hr place test yes outer ih =>
    rw [Hole.fill, ih, resolveIn_conditional _ hr, Hole.front, Hole.start, Hole.back]
    simp only [Resolution.append_assoc]
  | slot hr place head front tail back outer ih =>
    have hmore : (front ++ Span.mk e tail :: back).isEmpty = false := by simp
    rw [Hole.fill, ih, resolveIn_template _ hr, resolveTemplate, hmore, resolveSpans_append_cons,
      Hole.front, Hole.start, Hole.back, resolveIn]
    simp only [Resolution.append_assoc, Bool.not_false]
  | argument place callee front back types outer ih =>
    rw [Hole.fill, ih, resolveIn, resolve, resolveAll_append, resolveAll, Hole.front, Hole.start,
      Hole.back, resolveIn]
    simp only [Resolution.append_assoc]

/-- **A gap takes nothing else away.** Of an expression with something resolvable in its hole, the
values are those in front of the hole, those of what is in it, and those behind, and the gaps are
those in front and behind. With something that is not understood in the hole, the values there are
missing and there is one gap there; everything else is the same. -/
theorem resolve_fill_not_understood {r : GapReason} (h : Hole r) {good bad : Expr}
    (hgood : (resolveIn h.start r good).unknowns = []) (hbad : understands r bad = false) :
    ((resolve (h.fill good)).values =
        h.front.values ++ ((resolveIn h.start r good).values ++ h.back.values) ∧
      (resolve (h.fill good)).unknowns = h.front.unknowns ++ h.back.unknowns) ∧
      (resolve (h.fill bad)).values = h.front.values ++ h.back.values ∧
        (resolve (h.fill bad)).unknowns = h.front.unknowns ++
          ⟨(unwrap bad).place, r, describe (unwrap bad)⟩ :: h.back.unknowns := by
  refine ⟨⟨?_, ?_⟩, ?_, ?_⟩
  · rw [resolve_fill, Resolution.values_append, Resolution.values_append]
  · rw [resolve_fill, Resolution.unknowns_append, Resolution.unknowns_append, hgood,
      List.nil_append]
  · rw [resolve_fill, resolveIn_of_not_understands _ hbad, Resolution.values_append,
      Resolution.values_append, Resolution.values_ofUnknown, List.nil_append]
  · rw [resolve_fill, resolveIn_of_not_understands _ hbad, Resolution.unknowns_append,
      Resolution.unknowns_append]
    rfl

/-- The call ``cx("icon", `size icon-${big ? … : name} wide`, extra)`` with a hole. -/
def crowdedHole : Hole .templateSlot :=
  .firstBranch (by decide) 27 (.name 27 "big") (.name 40 "name")
    (.slot (by decide) 11 "size icon-" [] " wide" []
      (.argument 0 (.name 0 "cx") [.plain (.string 3 "icon")] [.plain (.name 53 "extra")] []
        .whole))

/-- A name in the hole takes two classes away; the classes around them and the gaps of the other
names stay. -/
theorem resolve_fill_crowdedHole :
    ((resolveIn crowdedHole.start .templateSlot (.string 33 "on up")).unknowns = [] ∧
      understands .templateSlot (.name 33 "state") = false) ∧
      (resolve (crowdedHole.fill (.string 33 "on up"))).values =
        ["icon", "size", "icon-on", "up", "wide"] ∧
      (resolve (crowdedHole.fill (.name 33 "state"))).values = ["icon", "size", "wide"] ∧
      (resolve (crowdedHole.fill (.name 33 "state"))).unknowns.map (·.expression) =
        ["identifier `state`", "identifier `name`", "identifier `extra`"] := by
  have hgood : (resolveIn crowdedHole.start .templateSlot (.string 33 "on up")).unknowns = [] := rfl
  have hbad : understands .templateSlot (.name 33 "state") = false := rfl
  obtain ⟨⟨hvalues, -⟩, hless, hgaps⟩ := resolve_fill_not_understood crowdedHole hgood hbad
  refine ⟨⟨hgood, hbad⟩, hvalues.trans (by decide), hless.trans (by decide), ?_⟩
  rw [hgaps]
  decide

end GlyphTrim.ClassName
