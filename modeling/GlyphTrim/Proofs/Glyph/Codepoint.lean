import GlyphTrim.Glyph.Codepoint
import GlyphTrim.Proofs.Text.Hex
import Mathlib.Data.List.TakeWhile

/-!
# The characters that literals mean

The digits of a literal are read into a word of 32 bits, and may be too many for it. No word wraps
around: one comes out exactly if the digits write its number, however many they are
(`hexWord?_eq_some_iff`). So a literal means a character exactly if its digits write the number of
one (`parseCodepoint_eq_some_iff`), and every way to write a character as an escape is read back
(`parseCodepoint_of_leadingDigits`).
-/

namespace GlyphTrim.Glyph

open Text

/-! ## Words of digits -/

/-- One more digit: a word comes out exactly if it still holds the number. -/
theorem pushDigit?_eq_some_iff {n w : UInt32} {d : Nat} (hd : d < 16) :
    pushDigit? n (UInt32.ofNat d) = some w ↔ n.toNat * 16 + d = w.toNat := by
  have hbound : n < 0x10000000 ↔ n.toNat < 0x10000000 := UInt32.lt_iff_toNat_lt
  have hw := w.toNat_lt
  unfold pushDigit?
  split_ifs with h
  · have hn := hbound.1 h
    have hsum : (n * 16 + UInt32.ofNat d).toNat = n.toNat * 16 + d := by
      rw [UInt32.toNat_add, UInt32.toNat_mul, UInt32.toNat_ofNat']
      simp
      omega
    rw [Option.some.injEq, ← UInt32.toNat_inj, hsum]
  · have hn := mt hbound.2 h
    simp
    omega

/-- Digits behind a word: a number that once does not fit never fits again. -/
theorem foldlM_pushDigit?_eq_some_iff (digits : List Char) (n w : UInt32) :
    digits.foldlM (fun n c => pushDigit? n (UInt32.ofNat ((hexDigit? c).getD 0))) n = some w ↔
      n.toNat * 16 ^ digits.length + hexNumber digits = w.toNat := by
  induction digits generalizing n with
  | nil => simp [hexNumber_nil, UInt32.toNat_inj]
  | cons c digits ih =>
    have hstep (m : UInt32) := pushDigit?_eq_some_iff (n := n) (w := m) (getD_hexDigit?_lt c)
    have hnumber : n.toNat * 16 ^ (c :: digits).length + hexNumber (c :: digits) =
        (n.toNat * 16 + (hexDigit? c).getD 0) * 16 ^ digits.length + hexNumber digits := by
      rw [hexNumber_cons, List.length_cons]
      ring
    rw [List.foldlM_cons, Option.bind_eq_bind, Option.bind_eq_some_iff, hnumber]
    constructor
    · rintro ⟨m, hm, hrest⟩
      rw [(hstep m).1 hm, (ih m).1 hrest]
    · intro h
      have hle : n.toNat * 16 + (hexDigit? c).getD 0 ≤ w.toNat := by
        rw [← h]
        exact (Nat.le_mul_of_pos_right _ (Nat.pow_pos (by decide))).trans (Nat.le_add_right _ _)
      have hm : (UInt32.ofNat (n.toNat * 16 + (hexDigit? c).getD 0)).toNat =
          n.toNat * 16 + (hexDigit? c).getD 0 :=
        UInt32.toNat_ofNat_of_lt' (hle.trans_lt w.toNat_lt)
      exact ⟨_, (hstep _).2 hm.symm, (ih _).2 (by rw [hm, h])⟩

/-- **No wrapping around**: a word comes out of digits exactly if they write its number. -/
theorem hexWord?_eq_some_iff {digits : List Char} {w : UInt32} :
    hexWord? digits = some w ↔ hexNumber digits = w.toNat := by
  rw [hexWord?, foldlM_pushDigit?_eq_some_iff]
  simp

theorem character?_eq_some_iff {n : UInt32} {c : Char} : character? n = some c ↔ n = c.val := by
  unfold character?
  split_ifs with h
  · rw [Option.some.injEq]
    exact ⟨fun hc => hc ▸ rfl, fun hn => Char.ext hn⟩
  · simp only [false_iff]
    exact fun hn => h (hn ▸ c.valid)

/-- A literal means a character exactly if its digits write the number of the character. -/
theorem parseCodepoint_eq_some_iff {literal : String} {c : Char} :
    parseCodepoint literal = some c ↔
      codepointDigits literal ≠ [] ∧ hexNumber (codepointDigits literal) = c.toNat := by
  unfold parseCodepoint
  by_cases hnil : codepointDigits literal = []
  · simp [hnil]
  · simp [hnil, Option.bind_eq_some_iff, hexWord?_eq_some_iff, character?_eq_some_iff]

/-! ## The digits of a literal -/

/-- A literal without its backslashes, and without one `u` at the start of the rest. -/
def unmarked (literal : String) : List Char :=
  let cs := literal.toList.filter (· != '\\')
  if cs.head? = some 'u' then cs.tail else cs

/-- The longest run of hexadecimal digits that a text begins with. -/
structure LeadingDigits (cs digits : List Char) : Prop where
  all_digits : ∀ x ∈ digits, isHexDigit x = true
  exists_rest : ∃ rest, cs = digits ++ rest ∧ ∀ x ∈ rest.head?, isHexDigit x = false

theorem LeadingDigits.takeWhile_eq {cs digits : List Char} (h : LeadingDigits cs digits) :
    cs.takeWhile isHexDigit = digits := by
  obtain ⟨rest, rfl, hrest⟩ := h.exists_rest
  rw [List.takeWhile_append_of_pos h.all_digits]
  cases rest with
  | nil => simp
  | cons x rest => simp [hrest x rfl]

/-- Each text begins with exactly one longest run of digits, perhaps without any digit. -/
theorem existsUnique_leadingDigits (cs : List Char) : ∃! digits, LeadingDigits cs digits := by
  refine ⟨cs.takeWhile isHexDigit, ⟨fun x hx => ?_, cs.dropWhile isHexDigit, ?_, fun x hx => ?_⟩,
    fun digits h => h.takeWhile_eq.symm⟩
  · exact List.all_eq_true.1 List.all_takeWhile x hx
  · exact List.takeWhile_append_dropWhile.symm
  · have hstop := List.head?_dropWhile_not isHexDigit cs
    rw [Option.mem_def.1 hx] at hstop
    simpa using hstop

theorem codepointDigits_eq (literal : String) :
    codepointDigits literal = (unmarked literal).takeWhile isHexDigit := by
  unfold codepointDigits unmarked
  generalize literal.toList.filter (· != '\\') = cs
  cases cs with
  | nil => rfl
  | cons c cs =>
    by_cases hc : c = 'u'
    · subst hc
      rfl
    · simp [hc]

theorem LeadingDigits.codepointDigits_eq {literal : String} {digits : List Char}
    (h : LeadingDigits (unmarked literal) digits) : codepointDigits literal = digits := by
  rw [Glyph.codepointDigits_eq, h.takeWhile_eq]

/-- The digits of a literal, where it is known what its backslashes stand in. -/
theorem leadingDigits_unmarked {literal : String} {mark digits rest : List Char}
    (hfilter : literal.toList.filter (· != '\\') = mark ++ (digits ++ rest))
    (hmark : mark = [] ∨ mark = ['u']) (hne : digits ≠ [])
    (hdigits : ∀ x ∈ digits, isHexDigit x = true)
    (hrest : ∀ x ∈ rest.head?, isHexDigit x = false) :
    LeadingDigits (unmarked literal) digits := by
  obtain ⟨d, ds, rfl⟩ := List.exists_cons_of_ne_nil hne
  have hd : d ≠ 'u' := by
    rintro rfl
    exact absurd (hdigits 'u' List.mem_cons_self) (by decide)
  refine ⟨hdigits, rest, ?_, hrest⟩
  unfold unmarked
  rw [hfilter]
  rcases hmark with rfl | rfl
  · simp [hd]
  · rfl

/-! ## The digits of a number -/

theorem hexDigit?_capitalDigit : ∀ d < 16, hexDigit? (capitalDigit d) = some d := by decide

theorem hexNumber_capitalHex (width n : Nat) : hexNumber (capitalHex width n) = n := by
  have hdigit (n : Nat) : hexNumber [capitalDigit (n % 16)] = n % 16 := by
    rw [hexNumber_singleton, hexDigit?_capitalDigit _ (Nat.mod_lt _ (by decide))]
    rfl
  fun_induction capitalHex width n with
  | case1 => rfl
  | case2 n hn ih | case3 n width ih =>
    rw [hexNumber_append, ih, hdigit, List.length_singleton]
    omega

theorem isHexDigit_of_mem_capitalHex {width n : Nat} {x : Char} (h : x ∈ capitalHex width n) :
    isHexDigit x = true := by
  have hdigit (n : Nat) : isHexDigit (capitalDigit (n % 16)) = true := by
    rw [isHexDigit, hexDigit?_capitalDigit _ (Nat.mod_lt _ (by decide))]
    rfl
  fun_induction capitalHex width n with
  | case1 => simp at h
  | case2 n hn ih | case3 n width ih =>
    rcases List.mem_append.1 h with h | h
    · exact ih h
    · rw [List.mem_singleton.1 h]
      exact hdigit n

theorem capitalHex_succ_ne_nil (width n : Nat) : capitalHex (width + 1) n ≠ [] := by
  rw [capitalHex]
  simp

/-! ## Escapes -/

/-- A literal is an escape of a character: a backslash, perhaps a `u`, zeros, and the hexadecimal
digits of the character in either case; what stands behind them does not go on with them. -/
def IsEscapeOf (c : Char) (literal : String) : Prop :=
  ∃ (mark : List Char) (zeros : Nat) (digits suffix : List Char),
    literal.toList = '\\' :: (mark ++ (List.replicate zeros '0' ++ digits ++ suffix)) ∧
    (mark = [] ∨ mark = ['u']) ∧ digits.map Char.toUpper = capitalHex 1 c.toNat ∧
    ∀ x ∈ suffix.head?, isHexDigit x = false ∧ x ≠ '\\'

theorem isHexDigit_toUpper (c : Char) : isHexDigit c.toUpper = isHexDigit c := by
  rw [isHexDigit, hexDigit?_toUpper, isHexDigit]

/-- Digits hold no backslash. -/
theorem filter_backslash_of_digits {digits : List Char}
    (h : ∀ x ∈ digits, isHexDigit x = true) : digits.filter (· != '\\') = digits := by
  refine List.filter_eq_self.2 fun x hx => bne_iff_ne.2 ?_
  rintro rfl
  exact absurd (h _ hx) (by decide)

/-- What stands behind the digits of an escape still does so without its backslashes. -/
theorem head?_filter_backslash {suffix : List Char}
    (h : ∀ x ∈ suffix.head?, isHexDigit x = false ∧ x ≠ '\\') :
    ∀ x ∈ (suffix.filter (· != '\\')).head?, isHexDigit x = false := by
  cases suffix with
  | nil => simp
  | cons x suffix =>
    obtain ⟨hx, hne⟩ := h x rfl
    have hkeep : (x :: suffix).filter (· != '\\') = x :: suffix.filter (· != '\\') :=
      List.filter_cons_of_pos (bne_iff_ne.2 hne)
    rw [hkeep]
    simpa using hx

/-- The digits of an escape write the number of its character. -/
theorem IsEscapeOf.exists_leadingDigits {c : Char} {literal : String} (h : IsEscapeOf c literal) :
    ∃ digits, LeadingDigits (unmarked literal) digits ∧ digits ≠ [] ∧
      hexNumber digits = c.toNat := by
  obtain ⟨mark, zeros, digits, suffix, hliteral, hmark, hdigits, hsuffix⟩ := h
  have hne : digits ≠ [] := by
    rintro rfl
    exact capitalHex_succ_ne_nil 0 c.toNat hdigits.symm
  have hhex : ∀ x ∈ List.replicate zeros '0' ++ digits, isHexDigit x = true := by
    intro x hx
    rcases List.mem_append.1 hx with hx | hx
    · rw [List.eq_of_mem_replicate hx]
      rfl
    · rw [← isHexDigit_toUpper]
      exact isHexDigit_of_mem_capitalHex (hdigits ▸ List.mem_map_of_mem hx)
  have hfilter : literal.toList.filter (· != '\\') =
      mark ++ (List.replicate zeros '0' ++ digits ++ suffix.filter (· != '\\')) := by
    have hmarkFilter : mark.filter (· != '\\') = mark := by
      rcases hmark with rfl | rfl <;> rfl
    rw [hliteral, List.filter_cons_of_neg (by decide), List.filter_append, List.filter_append,
      hmarkFilter, filter_backslash_of_digits hhex]
  refine ⟨_, leadingDigits_unmarked hfilter hmark (by simp [hne]) hhex
    (head?_filter_backslash hsuffix), by simp [hne], ?_⟩
  rw [hexNumber_replicate_append, ← hexNumber_map_toUpper, hdigits, hexNumber_capitalHex]

/-- **Literals mean the number that their digits write**, if it is the number of a character. The
digits are the longest run at the start of the literal without its backslashes and one `u`, and
may be any number of digits. So each character is read back from each of its escapes. -/
theorem parseCodepoint_of_leadingDigits :
    (∀ literal : String, ∃! digits, LeadingDigits (unmarked literal) digits) ∧
    (∀ (literal : String) (digits : List Char), LeadingDigits (unmarked literal) digits →
      ∀ c, parseCodepoint literal = some c ↔
        digits ≠ [] ∧ hexNumber digits ≤ 0x10FFFF ∧
          ¬ (0xD800 ≤ hexNumber digits ∧ hexNumber digits ≤ 0xDFFF) ∧
          c.toNat = hexNumber digits) ∧
    ∀ (c : Char) (literal : String), IsEscapeOf c literal → parseCodepoint literal = some c := by
  have hread (literal : String) (digits : List Char) (h : LeadingDigits (unmarked literal) digits)
      (c : Char) : parseCodepoint literal = some c ↔ digits ≠ [] ∧ hexNumber digits = c.toNat := by
    rw [parseCodepoint_eq_some_iff, h.codepointDigits_eq]
  refine ⟨fun literal => existsUnique_leadingDigits _, fun literal digits h c => ?_,
    fun c literal h => ?_⟩
  · rw [hread literal digits h]
    refine and_congr_right fun _ => ⟨fun hc => ?_, fun hc => hc.2.2.symm⟩
    -- a character has no other numbers
    have hvalid : c.toNat < 0xD800 ∨ 0xDFFF < c.toNat ∧ c.toNat < 0x110000 := c.valid
    omega
  · obtain ⟨digits, hdigits, hne, hnumber⟩ := h.exists_leadingDigits
    exact (hread literal digits hdigits c).2 ⟨hne, hnumber⟩

/-- A literal of more digits than eight, with text behind them. -/
theorem parseCodepoint_paddedLiteral :
    LeadingDigits (unmarked "\\u000000001F600;") "000000001F600".toList ∧
      IsEscapeOf (Char.ofNat 0x1F600) "\\u000000001f600 x" ∧
      parseCodepoint "\\u000000001F600;" = some (Char.ofNat 0x1F600) ∧
      parseCodepoint "\\u000000001f600 x" = some (Char.ofNat 0x1F600) := by
  have hdigits : LeadingDigits (unmarked "\\u000000001F600;") "000000001F600".toList :=
    ⟨List.all_eq_true.1 (by decide), [';'], by decide, by rintro _ ⟨⟩; decide⟩
  have hescape : IsEscapeOf (Char.ofNat 0x1F600) "\\u000000001f600 x" :=
    ⟨['u'], 8, "1f600".toList, [' ', 'x'], by decide, by decide,
      by simp [capitalHex, capitalDigit], by rintro _ ⟨⟩; decide⟩
  refine ⟨hdigits, hescape, (parseCodepoint_of_leadingDigits.2.1 _ _ hdigits _).2 ?_,
    parseCodepoint_of_leadingDigits.2.2 _ _ hescape⟩
  decide

/-- Nine digits, of which the last 32 bits would be the number of a character. -/
example : parseCodepoint "\\10000e600" = none := by decide

end GlyphTrim.Glyph
