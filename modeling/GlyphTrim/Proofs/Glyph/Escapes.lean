import GlyphTrim.Proofs.Css.Ending
import GlyphTrim.Proofs.Glyph.Codepoint
import GlyphTrim.Proofs.Glyph.Plan

/-!
# Literals of several escapes

The content of a rule can be several escapes, and is then several characters in a stylesheet
(`contentText_escapes`). The reading of a literal does not tell escapes apart: their digits run
together up to the first escape that a space ends (`exists_filter_escapes`). So a literal of
several escapes mostly means no character, since the run has too many digits, but it can mean one
(`not_forall_contentText_eq`); `parseCodepoint_escapes` says when, and which.
-/

namespace GlyphTrim.Glyph

open Css Text

/-- An escape with digits: one to six of them behind a backslash, and perhaps a space that ends
it. -/
structure HexEscape where
  digits : List Char
  /-- Whether a space ends it. -/
  spaced : Bool
  all_digits : ∀ x ∈ digits, isHexDigit x = true
  ne_nil : digits ≠ []
  length_le : digits.length ≤ 6

namespace HexEscape

/-- The space that ends an escape, if there is one. -/
def ending (e : HexEscape) : List Char := if e.spaced then [' '] else []

/-- The escape as it is written. -/
def text (e : HexEscape) : List Char := '\\' :: (e.digits ++ e.ending)

/-- The character that the escape means in a stylesheet. -/
def char (e : HexEscape) : Char :=
  let n := hexNumber e.digits
  if n = 0 ∨ 0x10FFFF < n ∨ 0xD800 ≤ n ∧ n < 0xE000 then '\uFFFD' else Char.ofNat n

end HexEscape

/-! ## What escapes mean in a stylesheet -/

/-- The text that a literal means in a stylesheet, where it stands in quotes. -/
def contentText (literal : String) : List Char := stringText '"' 0 (literal.toList ++ ['"'])

/-- Characters that are passed in a string. -/
theorem stringText_drop (quote : Char) (pass : Nat) (cs : List Char) :
    stringText quote pass cs = stringText quote 0 (cs.drop pass) := by
  induction cs generalizing pass with
  | nil => simp [stringText]
  | cons c cs ih =>
    cases pass with
    | zero => rfl
    | succ pass => rw [stringText, ih, List.drop_succ_cons]

theorem isBreak_of_isHexDigit {c : Char} (h : isHexDigit c = true) : isBreak c = false := by
  cases hbreak : isBreak c with
  | false => rfl
  | true =>
    simp only [isBreak, Bool.or_eq_true, beq_iff_eq, or_assoc] at hbreak
    rcases hbreak with rfl | rfl | rfl <;> exact absurd h (by decide)

/-- The characters behind an escape that do not go on with it. -/
structure EndsEscape (cs : List Char) : Prop where
  not_digit : ∀ x ∈ cs.head?, isHexDigit x = false
  not_space : ∀ x ∈ cs.head?, isSpace x = false

namespace HexEscape

variable (e : HexEscape) {z : List Char}

theorem escapeDigits_append (hz : ∀ x ∈ z.head?, isHexDigit x = false) :
    escapeDigits (e.digits ++ z) = e.digits := by
  have hrest : (z.take (6 - e.digits.length)).takeWhile isHexDigit = [] := by
    cases z with
    | nil => simp
    | cons x z => cases 6 - e.digits.length <;> simp [hz x rfl]
  rw [escapeDigits, List.take_append, List.take_of_length_le e.length_le,
    List.takeWhile_append_of_pos e.all_digits, hrest, List.append_nil]

theorem escapeChar_append (hz : ∀ x ∈ z.head?, isHexDigit x = false) :
    escapeChar (e.digits ++ z) = e.char := by
  unfold escapeChar char
  rw [e.escapeDigits_append hz]
  simp [e.ne_nil, or_assoc]

theorem not_digit_ending (hz : EndsEscape z) :
    ∀ x ∈ (e.ending ++ z).head?, isHexDigit x = false := by
  unfold ending
  split
  · rintro x ⟨⟩
    rfl
  · exact hz.not_digit

theorem escapeLength_append (hz : EndsEscape z) :
    escapeLength (e.digits ++ (e.ending ++ z)) = (e.digits ++ e.ending).length := by
  have hdigits := e.escapeDigits_append (e.not_digit_ending hz)
  rw [escapeLength_of_digits (by rw [hdigits]; exact e.ne_nil), hdigits, List.drop_left,
    List.length_append]
  congr 1
  unfold ending
  split
  · rfl
  · cases z with
    | nil => rfl
    | cons x z => simp [escapeEndLength, hz.not_space x rfl]

/-- An escape in a string is its character. -/
theorem stringText_append (hz : EndsEscape z) :
    stringText '"' 0 (e.text ++ z) = e.char :: stringText '"' 0 z := by
  obtain ⟨d, ds, hd⟩ := List.exists_cons_of_ne_nil e.ne_nil
  have hnext : (e.digits ++ (e.ending ++ z)).isEmpty = false ∧
      startsBreak (e.digits ++ (e.ending ++ z)) = false := by
    rw [hd]
    exact ⟨rfl, isBreak_of_isHexDigit (e.all_digits d (by simp [hd]))⟩
  have hwhole : e.text ++ z = '\\' :: (e.digits ++ (e.ending ++ z)) := by simp [text]
  have hdrop : (e.digits ++ (e.ending ++ z)).drop (e.digits ++ e.ending).length = z := by
    rw [← List.append_assoc, List.drop_left]
  rw [hwhole, stringText, hnext.1, hnext.2, e.escapeChar_append (e.not_digit_ending hz),
    e.escapeLength_append hz, stringText_drop _ (e.digits ++ e.ending).length, hdrop]
  rfl

end HexEscape

theorem endsEscape_texts (es : List HexEscape) :
    EndsEscape (es.flatMap HexEscape.text ++ ['"']) := by
  cases es with
  | nil => constructor <;> rintro x ⟨⟩ <;> rfl
  | cons e es =>
    constructor <;> rintro x ⟨⟩ <;> rfl

/-- Escapes in a stylesheet are as many characters. -/
theorem contentText_escapes {es : List HexEscape} {literal : String}
    (hliteral : literal.toList = es.flatMap HexEscape.text) :
    contentText literal = es.map HexEscape.char := by
  rw [contentText, hliteral]
  clear hliteral
  induction es with
  | nil => rfl
  | cons e es ih =>
    rw [List.flatMap_cons, List.append_assoc, e.stringText_append (endsEscape_texts es), ih,
      List.map_cons]

/-! ## Digits that run together -/

/-- The digits of escapes, up to the first one that a space ends. -/
def joinedDigits : List HexEscape → List Char
  | [] => []
  | e :: es => e.digits ++ if e.spaced then [] else joinedDigits es

theorem all_joinedDigits (es : List HexEscape) : ∀ x ∈ joinedDigits es, isHexDigit x = true := by
  induction es with
  | nil => simp [joinedDigits]
  | cons e es ih =>
    intro x hx
    rcases List.mem_append.1 hx with hx | hx
    · exact e.all_digits x hx
    · split at hx
      · exact absurd hx List.not_mem_nil
      · exact ih x hx

theorem joinedDigits_ne_nil {es : List HexEscape} (hne : es ≠ []) : joinedDigits es ≠ [] := by
  obtain ⟨e, es, rfl⟩ := List.exists_cons_of_ne_nil hne
  simp [joinedDigits, e.ne_nil]

/-- Without their backslashes, escapes run together up to a space. -/
theorem exists_filter_escapes (es : List HexEscape) :
    ∃ rest, (es.flatMap HexEscape.text).filter (· != '\\') = joinedDigits es ++ rest ∧
      ∀ x ∈ rest.head?, isHexDigit x = false := by
  induction es with
  | nil => exact ⟨[], rfl, by simp⟩
  | cons e es ih =>
    obtain ⟨rest, hrest, hhead⟩ := ih
    have htext : e.text.filter (· != '\\') = e.digits ++ e.ending := by
      have hending : e.ending.filter (· != '\\') = e.ending := by
        unfold HexEscape.ending
        split <;> rfl
      rw [HexEscape.text, List.filter_cons_of_neg (by decide), List.filter_append,
        filter_backslash_of_digits e.all_digits, hending]
    rw [List.flatMap_cons, List.filter_append, htext, hrest, joinedDigits, HexEscape.ending]
    cases e.spaced with
    | false => exact ⟨rest, by simp, hhead⟩
    | true => exact ⟨' ' :: (joinedDigits es ++ rest), by simp, by rintro x ⟨⟩; rfl⟩

/-- A literal of escapes means the number of the digits that run together. -/
theorem parseCodepoint_escapes_iff {es : List HexEscape} {literal : String}
    (hliteral : literal.toList = es.flatMap HexEscape.text) (hne : es ≠ []) {c : Char} :
    parseCodepoint literal = some c ↔ c.toNat = hexNumber (joinedDigits es) := by
  obtain ⟨rest, hrest, hhead⟩ := exists_filter_escapes es
  have hfilter : literal.toList.filter (· != '\\') = [] ++ (joinedDigits es ++ rest) := by
    rw [hliteral, hrest, List.nil_append]
  have hrun := leadingDigits_unmarked hfilter (.inl rfl) (joinedDigits_ne_nil hne)
    (all_joinedDigits es) hhead
  rw [parseCodepoint_eq_some_iff, hrun.codepointDigits_eq, and_iff_right (joinedDigits_ne_nil hne)]
  exact eq_comm

/-- More than six digits from a digit on that is no zero write the number of no character. -/
theorem parseCodepoint_escapes_eq_none {es : List HexEscape} {literal : String}
    (hliteral : literal.toList = es.flatMap HexEscape.text) (hne : es ≠ []) {a b : List Char}
    (hdigits : joinedDigits es = a ++ b) (ha : hexNumber a ≠ 0) (hb : 6 ≤ b.length) :
    parseCodepoint literal = none := by
  rw [Option.eq_none_iff_forall_ne_some]
  intro c hc
  have hnumber := (parseCodepoint_escapes_iff hliteral hne).1 hc
  have hlarge : 16 ^ 6 ≤ c.toNat := by
    rw [hnumber, hdigits]
    exact (Nat.pow_le_pow_right (by decide) hb).trans (pow_le_hexNumber ha b)
  have hvalid : c.toNat < 0xD800 ∨ 0xDFFF < c.toNat ∧ c.toNat < 0x110000 := c.valid
  omega

/-- An escape whose number is the number of a character other than zero means this character. -/
theorem HexEscape.char_eq {e : HexEscape} {c : Char} (h : c.toNat = hexNumber e.digits) :
    e.char = if c = '\x00' then '\uFFFD' else c := by
  have hvalid : c.toNat < 0xD800 ∨ 0xDFFF < c.toNat ∧ c.toNat < 0x110000 := c.valid
  have hzero : c = '\x00' ↔ c.toNat = 0 := by rw [← Char.toNat_inj]; rfl
  rw [HexEscape.char, ← h, Char.ofNat_toNat]
  refine if_congr ?_ rfl rfl
  rw [hzero]
  omega

/-! ## Literals of escapes -/

/-- **A literal of escapes means the number that their digits write when they run together**, up to
the first escape that a space ends, if it is the number of a character. So one escape means the
character that it means in a stylesheet (zero means itself and not the replacement character),
while more than one mean no character if their run has more than six digits without the zeros in
front; a class whose literal means no character has a warning and no glyph. -/
theorem parseCodepoint_escapes {es : List HexEscape} {literal : String}
    (hliteral : literal.toList = es.flatMap HexEscape.text) (hne : es ≠ []) :
    contentText literal = es.map HexEscape.char ∧
    (∀ c, parseCodepoint literal = some c ↔ c.toNat = hexNumber (joinedDigits es)) ∧
    (es.length = 1 → ∀ c, parseCodepoint literal = some c →
      contentText literal = [if c = '\x00' then '\uFFFD' else c]) ∧
    (∀ a b, joinedDigits es = a ++ b → hexNumber a ≠ 0 → 6 ≤ b.length →
      parseCodepoint literal = none) ∧
    (parseCodepoint literal = none → ∀ (retained : Retained) (font css : Path) (c : String),
      (c, literal) ∈ retained.entries →
        codepointWarning c literal ∈ (Plan.ofRetained retained font css).warnings ∧
        c ∉ (Plan.ofRetained retained font css).glyphs.map (·.1)) := by
  refine ⟨contentText_escapes hliteral, fun c => parseCodepoint_escapes_iff hliteral hne, ?_,
    fun a b => parseCodepoint_escapes_eq_none hliteral hne, ?_⟩
  · intro hone c hc
    obtain ⟨e, rfl⟩ := List.length_eq_one_iff.1 hone
    have hdigits : joinedDigits [e] = e.digits := by simp [joinedDigits]
    have hnumber := (parseCodepoint_escapes_iff hliteral hne).1 hc
    rw [hdigits] at hnumber
    rw [contentText_escapes hliteral, List.map_singleton, HexEscape.char_eq hnumber]
  · intro hnone retained font css c hmem
    constructor
    · show codepointWarning c literal ∈ codepointWarnings retained
      exact List.mem_filterMap.2 ⟨(c, literal), hmem, by simp [hnone]⟩
    · show c ∉ (validGlyphs retained).map (·.1)
      rw [mem_names_validGlyphs_iff hmem, hnone]
      exact Bool.false_ne_true

/-- The escapes of two glyphs of a font, one behind the other. -/
def twoGlyphs : List HexEscape :=
  [⟨"f101".toList, false, List.all_eq_true.1 (by decide), by decide, by decide⟩,
    ⟨"f102".toList, false, List.all_eq_true.1 (by decide), by decide, by decide⟩]

/-- Two glyphs are not taken for one. -/
theorem parseCodepoint_twoGlyphs :
    "\\f101\\f102".toList = twoGlyphs.flatMap HexEscape.text ∧ twoGlyphs ≠ [] ∧
      parseCodepoint "\\f101\\f102" = none := by
  have hliteral : "\\f101\\f102".toList = twoGlyphs.flatMap HexEscape.text := by decide
  have hne : twoGlyphs ≠ [] := by decide
  exact ⟨hliteral, hne, (parseCodepoint_escapes hliteral hne).2.2.2.1 ['f'] "101f102".toList
    (by decide) (by decide) (by decide)⟩

/-- Two escapes of few digits, which run together to the digits of a glyph. -/
def shortEscapes : List HexEscape :=
  [⟨"e6".toList, false, List.all_eq_true.1 (by decide), by decide, by decide⟩,
    ⟨"00".toList, false, List.all_eq_true.1 (by decide), by decide, by decide⟩]

/-- **Several escapes can be taken for one character**, and for none of those that they mean. -/
theorem not_forall_contentText_eq :
    ¬ ∀ (es : List HexEscape) (literal : String), es ≠ [] →
      literal.toList = es.flatMap HexEscape.text → ∀ c, parseCodepoint literal = some c →
        es.length = 1 ∧ contentText literal = [c] := by
  intro h
  have hliteral : "\\e6\\00".toList = shortEscapes.flatMap HexEscape.text := by decide
  have hread : parseCodepoint "\\e6\\00" = some '\ue600' := by decide
  have hone := (h shortEscapes _ (by decide) hliteral _ hread).1
  exact absurd hone (by decide)

end GlyphTrim.Glyph
