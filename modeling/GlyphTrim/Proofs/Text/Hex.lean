import GlyphTrim.Text.Ascii
import Mathlib.Data.Nat.Basic
import Mathlib.Tactic.Ring

/-!
# Hexadecimal numbers

What digits are worth. The number of two runs of digits put together comes from the numbers of
either (`hexNumber_append`), so zeros in front count for nothing, and digits behind a digit that
is no zero make the number grow (`pow_le_hexNumber`). Letters are worth the same in either case
(`hexNumber_map_toUpper`).
-/

namespace GlyphTrim.Text

/-! ## Digits -/

/-- The digits by the numbers of their characters. -/
theorem hexDigit?_eq (c : Char) : hexDigit? c =
    if 48 ≤ c.toNat ∧ c.toNat ≤ 57 then some (c.toNat - 48)
    else if 97 ≤ c.toNat ∧ c.toNat ≤ 102 then some (c.toNat - 87)
    else if 65 ≤ c.toNat ∧ c.toNat ≤ 70 then some (c.toNat - 55)
    else none := by
  have hdigit : c.isDigit = true ↔ 48 ≤ c.toNat ∧ c.toNat ≤ 57 := by
    simp [Char.isDigit, UInt32.le_iff_toNat_le]
  simp only [hexDigit?, hdigit, Char.le_def, UInt32.le_iff_toNat_le]
  rfl

theorem getD_hexDigit?_lt (c : Char) : (hexDigit? c).getD 0 < 16 := by
  rw [hexDigit?_eq]
  split_ifs <;> simp <;> omega

theorem toNat_toUpper (c : Char) :
    c.toUpper.toNat = if 97 ≤ c.toNat ∧ c.toNat ≤ 122 then c.toNat - 32 else c.toNat := by
  unfold Char.toUpper
  split_ifs with h h' h'
  · have hle := UInt32.le_iff_toNat_le.1 h.1
    have hle' := UInt32.le_iff_toNat_le.1 h.2
    show (c.val + _).toNat = c.val.toNat - 32
    rw [UInt32.toNat_add]
    simp at hle hle' ⊢
    omega
  · exact absurd ⟨UInt32.le_iff_toNat_le.1 h.1, UInt32.le_iff_toNat_le.1 h.2⟩ h'
  · exact absurd ⟨UInt32.le_iff_toNat_le.2 h'.1, UInt32.le_iff_toNat_le.2 h'.2⟩ h
  · rfl

/-- Capital letters are worth as much as small ones. -/
theorem hexDigit?_toUpper (c : Char) : hexDigit? c.toUpper = hexDigit? c := by
  rw [hexDigit?_eq, hexDigit?_eq, toNat_toUpper]
  by_cases hsmall : 97 ≤ c.toNat ∧ c.toNat ≤ 122
  · rw [if_pos hsmall]
    split_ifs <;> grind
  · rw [if_neg hsmall]

/-! ## Numbers -/

theorem hexNumber_nil : hexNumber [] = 0 := rfl

/-- Digits that are read behind a number. -/
theorem foldl_eq_add_hexNumber (cs : List Char) (n : Nat) :
    cs.foldl (fun n c => n * 16 + (hexDigit? c).getD 0) n = n * 16 ^ cs.length + hexNumber cs := by
  induction cs generalizing n with
  | nil => simp [hexNumber_nil]
  | cons c cs ih =>
    have hcons : hexNumber (c :: cs) = (hexDigit? c).getD 0 * 16 ^ cs.length + hexNumber cs := by
      rw [← ih, hexNumber, List.foldl_cons, Nat.zero_mul, Nat.zero_add]
    rw [List.foldl_cons, ih, hcons, List.length_cons]
    ring

theorem hexNumber_append (a b : List Char) :
    hexNumber (a ++ b) = hexNumber a * 16 ^ b.length + hexNumber b := by
  rw [hexNumber, List.foldl_append, foldl_eq_add_hexNumber]
  rfl

theorem hexNumber_singleton (c : Char) : hexNumber [c] = (hexDigit? c).getD 0 := by
  simp [hexNumber]

theorem hexNumber_cons (c : Char) (cs : List Char) :
    hexNumber (c :: cs) = (hexDigit? c).getD 0 * 16 ^ cs.length + hexNumber cs := by
  rw [← List.singleton_append, hexNumber_append, hexNumber_singleton]

/-- Zeros in front count for nothing. -/
theorem hexNumber_replicate_append (k : Nat) (cs : List Char) :
    hexNumber (List.replicate k '0' ++ cs) = hexNumber cs := by
  induction k with
  | zero => rfl
  | succ k ih =>
    rw [List.replicate_succ, List.cons_append, hexNumber_cons, ih,
      show (hexDigit? '0').getD 0 = 0 from rfl, Nat.zero_mul, Nat.zero_add]

theorem hexNumber_map_toUpper (cs : List Char) :
    hexNumber (cs.map Char.toUpper) = hexNumber cs := by
  induction cs with
  | nil => rfl
  | cons c cs ih =>
    rw [List.map_cons, hexNumber_cons, hexNumber_cons, ih, hexDigit?_toUpper, List.length_map]

/-- Every digit behind a number that is not zero makes it sixteen times as large. -/
theorem pow_le_hexNumber {a : List Char} (h : hexNumber a ≠ 0) (b : List Char) :
    16 ^ b.length ≤ hexNumber (a ++ b) := by
  rw [hexNumber_append]
  calc 16 ^ b.length ≤ hexNumber a * 16 ^ b.length := Nat.le_mul_of_pos_left _ (by omega)
    _ ≤ hexNumber a * 16 ^ b.length + hexNumber b := Nat.le_add_right _ _

end GlyphTrim.Text
