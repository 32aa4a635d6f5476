import GlyphTrim.Text.Width
import Mathlib.Algebra.BigOperators.Group.List.Basic
import Mathlib.Algebra.GroupWithZero.Nat

/-!
# Widths that add up

Some characters ask something of the character before them: the parts of emoji, the letter alef,
line feeds. Where no character does, a text is as wide as its characters are one by one
(`textWidth_eq_sum`), so two parts from the start of a text are equally wide exactly if nothing
between their ends takes a column (`textWidth_take_eq_iff`).
-/

namespace GlyphTrim.Text

/-- The columns of a character by itself. -/
def ownWidth (c : Char) : Nat := (widthStep.alone c c.toNat).1

/-- The character asks nothing of the one before it. -/
def AsksNothing (c : Char) : Prop := (widthStep.alone c c.toNat).2 = .plain

instance (c : Char) : Decidable (AsksNothing c) :=
  inferInstanceAs (Decidable ((widthStep.alone c c.toNat).2 = .plain))

/-- The columns of a text, and what its first character asks. -/
def widthFrom (cs : List Char) : Nat × Following :=
  cs.foldr (fun c (sum, next) =>
    let (add, before) := widthStep c next
    (sum + add, before)) (0, .plain)

theorem widthFrom_eq {cs : List Char} (h : ∀ c ∈ cs, AsksNothing c) :
    widthFrom cs = ((cs.map ownWidth).sum, .plain) := by
  induction cs with
  | nil => rfl
  | cons c cs ih =>
    have hstep : widthFrom (c :: cs) =
        ((widthFrom cs).1 + (widthStep c (widthFrom cs).2).1, (widthStep c (widthFrom cs).2).2) :=
      rfl
    have hown : widthStep c .plain = (ownWidth c, .plain) := Prod.ext rfl (h c List.mem_cons_self)
    rw [hstep, ih fun d hd => h d (List.mem_cons_of_mem c hd), hown, List.map_cons, List.sum_cons,
      Nat.add_comm]

/-- **Where no character asks anything, widths add up.** -/
theorem textWidth_eq_sum {cs : List Char} (h : ∀ c ∈ cs, AsksNothing c) :
    textWidth cs = (cs.map ownWidth).sum := by
  show (widthFrom cs).1 = _
  rw [widthFrom_eq h]

/-- Two sums from the start of a list agree exactly if the numbers between their ends are zero. -/
theorem sum_take_eq_iff (l : List Nat) (a b : Nat) :
    (l.take a).sum = (l.take b).sum ↔ ∀ n ∈ (l.take (max a b)).drop (min a b), n = 0 := by
  wlog hab : a ≤ b generalizing a b
  · rw [eq_comm, this b a (by omega), Nat.max_comm, Nat.min_comm]
  · have hsplit : (l.take b).sum = (l.take a).sum + ((l.take b).drop a).sum := by
      rw [← List.sum_take_add_sum_drop (l.take b) a, List.take_take, Nat.min_eq_left hab]
    rw [Nat.max_eq_right hab, Nat.min_eq_left hab, ← List.sum_eq_zero_iff_forall_eq_nat, hsplit]
    omega

/-- Two parts from the start of a text are equally wide exactly if what is between their ends
takes no column. -/
theorem textWidth_take_eq_iff {cs : List Char} (h : ∀ c ∈ cs, AsksNothing c) (a b : Nat) :
    textWidth (cs.take a) = textWidth (cs.take b) ↔
      ∀ c ∈ (cs.take (max a b)).drop (min a b), ownWidth c = 0 := by
  have hpart (n : Nat) : textWidth (cs.take n) = ((cs.map ownWidth).take n).sum := by
    rw [textWidth_eq_sum fun c hc => h c (List.mem_of_mem_take hc), List.map_take]
  rw [hpart, hpart, sum_take_eq_iff, ← List.map_take, ← List.map_drop]
  exact List.forall_mem_map

end GlyphTrim.Text
