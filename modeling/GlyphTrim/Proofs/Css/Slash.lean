import GlyphTrim.Proofs.Css.Ending

/-!
# Scans in front of a slash

A comment that is put into a text puts a slash where another text went on. What goes on with a name,
a number or an escape is no slash, so a scan that ends in front of the place still ends there
(`EndsIn`). It goes on only where a backslash is left alone at the place: in front of a line break it
escapes nothing, and in front of a slash it does.
-/

namespace GlyphTrim.Css

open Text (isHexDigit)

/-- The text begins with a backslash that escapes nothing, since a line break follows. -/
def StartsLone (w : List Char) : Prop := ∃ rest, w = '\\' :: rest ∧ startsBreak rest = true

/-- A scan of `a ++ w` ends after `n` characters in `a`, and what is left of `a` is no single
backslash. -/
structure EndsIn (a : List Char) (n : Nat) : Prop where
  le : n ≤ a.length
  left : a.drop n ≠ ['\\']

theorem EndsIn.of_cons {a : List Char} {c : Char} {n : Nat} (h : EndsIn (c :: a) (n + 1)) :
    EndsIn a n where
  le := Nat.le_of_succ_le_succ h.le
  left := h.left

theorem EndsIn.of_drop {a : List Char} {d n : Nat} (h : EndsIn a (d + n)) :
    EndsIn (a.drop d) n where
  le := by
    have := h.le
    rw [List.length_drop]
    omega
  left := by
    rw [List.drop_drop]
    exact h.left

/-- No dash at the end of `a` stands in front of a backslash that escapes nothing. -/
def NoDash (w a : List Char) : Prop := a.getLast? = some '-' → ¬StartsLone w

theorem NoDash.of_drop {w a : List Char} (h : NoDash w a) (d : Nat) : NoDash w (a.drop d) := by
  intro hdash
  obtain ⟨b, hb⟩ := List.getLast?_eq_some_iff.1 hdash
  exact h (by rw [← List.take_append_drop d a, hb, ← List.append_assoc, List.getLast?_concat])

/-- A character that neither goes on with a name nor belongs to an escape. -/
structure IsBar (b : Char) : Prop where
  name : continuesName b = false
  backslash : b ≠ '\\'
  space : isSpace b = false

theorem continuesName_of_isHexDigit {c : Char} (h : isHexDigit c = true) :
    continuesName c = true := by
  simp only [isHexDigit, Text.hexDigit?] at h
  split_ifs at h with hdigit hlower hupper
  · simp [continuesName, hdigit]
  · have hz : c ≤ 'z' := Nat.le_trans (show c.toNat ≤ 102 from hlower.2) (by decide)
    have hletter : c.isLower = true :=
      Bool.and_eq_true_iff.2 ⟨decide_eq_true hlower.1, decide_eq_true hz⟩
    have halpha : c.isAlpha = true := Bool.or_eq_true_iff.2 (.inr hletter)
    simp [continuesName, beginsName, halpha]
  · have hz : c ≤ 'Z' := Nat.le_trans (show c.toNat ≤ 70 from hupper.2) (by decide)
    have hletter : c.isUpper = true := decide_eq_true ⟨hupper.1, hz⟩
    have halpha : c.isAlpha = true := Bool.or_eq_true_iff.2 (.inl hletter)
    simp [continuesName, beginsName, halpha]
  · exact absurd h Bool.false_ne_true

theorem IsBar.isHexDigit_eq_false {b : Char} (hb : IsBar b) : isHexDigit b = false := by
  rw [Bool.eq_false_iff]
  intro hhex
  exact absurd (continuesName_of_isHexDigit hhex) (by rw [hb.name]; exact Bool.false_ne_true)

/-- A bar is no line feed behind a carriage return. -/
theorem IsBar.not_newline {b c : Char} (hb : IsBar b) : ¬(c = '\r' ∧ b = '\n') := by
  rintro ⟨-, rfl⟩
  exact absurd hb.space (by decide)

theorem isBar_slash : IsBar '/' := ⟨rfl, by decide, rfl⟩

theorem isBar_round : IsBar '(' := ⟨rfl, by decide, rfl⟩

variable {b : Char} (hb : IsBar b) {w : List Char} (hw : w ≠ []) (z : List Char)

/-! ## Digits and white space -/

theorem takeWhile_bar {p : Char → Bool} (hp : p b = false) {a : List Char}
    (h : ((a ++ w).takeWhile p).length ≤ a.length) :
    (a ++ b :: z).takeWhile p = (a ++ w).takeWhile p := by
  induction a with
  | nil =>
    rw [List.nil_append, List.length_nil, Nat.le_zero, List.length_eq_zero_iff] at h
    rw [List.nil_append, List.nil_append, h, List.takeWhile_cons, hp]
    rfl
  | cons c a ih =>
    rw [List.cons_append, List.takeWhile_cons] at h
    rw [List.cons_append, List.cons_append, List.takeWhile_cons, List.takeWhile_cons]
    split at h
    · rename_i hc
      rw [if_pos hc, if_pos hc, ih (Nat.le_of_succ_le_succ h)]
    · rename_i hc
      rw [if_neg hc, if_neg hc]

theorem digitRun_slash {a : List Char} (h : digitRun (a ++ w) ≤ a.length) :
    digitRun (a ++ '/' :: z) = digitRun (a ++ w) :=
  congrArg List.length (takeWhile_bar z rfl h)

theorem startsDigit_append {a : List Char} (ha : a ≠ []) (v : List Char) :
    startsDigit (a ++ v) = startsDigit (a ++ w) := by
  obtain ⟨c, a, rfl⟩ := List.exists_cons_of_ne_nil ha
  rfl

theorem startsBreak_append {a : List Char} (ha : a ≠ []) (v : List Char) :
    startsBreak (a ++ v) = startsBreak (a ++ w) := by
  obtain ⟨c, a, rfl⟩ := List.exists_cons_of_ne_nil ha
  rfl

theorem head?_append {a : List Char} (ha : a ≠ []) (v : List Char) :
    (a ++ v).head? = (a ++ w).head? := by
  obtain ⟨c, a, rfl⟩ := List.exists_cons_of_ne_nil ha
  rfl

/-! ## Escapes -/

theorem breakLength_le_length (cs : List Char) : breakLength cs ≤ cs.length := by
  unfold breakLength
  split <;> simp

theorem one_le_breakLength {cs : List Char} (h : cs ≠ []) : 1 ≤ breakLength cs := by
  unfold breakLength
  split <;> simp_all

theorem escapeLength_le_length (cs : List Char) : escapeLength cs ≤ cs.length := by
  by_cases hnone : escapeDigits cs = []
  · rw [escapeLength_of_no_digits hnone]
    exact Nat.min_le_right _ _
  · have hle := length_escapeDigits_le_length cs
    rw [escapeLength_of_digits hnone]
    have hend : escapeEndLength (cs.drop (escapeDigits cs).length) ≤
        (cs.drop (escapeDigits cs).length).length := by
      cases cs.drop (escapeDigits cs).length with
      | nil => exact Nat.le_refl _
      | cons c ds =>
        rw [escapeEndLength]
        split
        · exact breakLength_le_length _
        · exact Nat.zero_le _
    rw [List.length_drop] at hend
    omega

theorem one_le_escapeLength {cs : List Char} (h : cs ≠ []) : 1 ≤ escapeLength cs := by
  by_cases hnone : escapeDigits cs = []
  · have := List.length_pos_iff.2 h
    rw [escapeLength_of_no_digits hnone]
    omega
  · have := List.length_pos_iff.2 hnone
    rw [escapeLength_of_digits hnone]
    omega

/-- The digits of an escape, of which the escape takes no more. -/
theorem length_escapeDigits_le_escapeLength (cs : List Char) :
    (escapeDigits cs).length ≤ escapeLength cs := by
  by_cases hnone : escapeDigits cs = []
  · rw [hnone]
    exact Nat.zero_le _
  · rw [escapeLength_of_digits hnone]
    exact Nat.le_add_right _ _

include hb in
theorem escapeDigits_bar {a : List Char} (h : (escapeDigits (a ++ w)).length ≤ a.length) :
    escapeDigits (a ++ b :: z) = escapeDigits (a ++ w) := by
  have htake : ∀ (a : List Char) (n : Nat),
      (((a ++ w).take n).takeWhile isHexDigit).length ≤ a.length →
        ((a ++ b :: z).take n).takeWhile isHexDigit =
          ((a ++ w).take n).takeWhile isHexDigit := by
    intro a
    induction a with
    | nil =>
      intro n h
      rw [List.nil_append, List.length_nil, Nat.le_zero, List.length_eq_zero_iff] at h
      rw [List.nil_append, List.nil_append, h]
      cases n with
      | zero => rfl
      | succ n => rw [List.take_succ_cons, List.takeWhile_cons, hb.isHexDigit_eq_false]; rfl
    | cons c a ih =>
      intro n h
      cases n with
      | zero => rfl
      | succ n =>
        rw [List.cons_append, List.take_succ_cons, List.takeWhile_cons] at h
        rw [List.cons_append, List.cons_append, List.take_succ_cons, List.take_succ_cons,
          List.takeWhile_cons, List.takeWhile_cons]
        split at h
        · rename_i hc
          rw [if_pos hc, if_pos hc, ih n (Nat.le_of_succ_le_succ h)]
        · rename_i hc
          rw [if_neg hc, if_neg hc]
  exact htake a 6 h

include hb hw

theorem breakLength_bar {a : List Char} (h : breakLength (a ++ w) ≤ a.length) :
    breakLength (a ++ b :: z) = breakLength (a ++ w) := by
  match a with
  | [] =>
    have hone := one_le_breakLength hw
    exact absurd (hone.trans h) (Nat.not_succ_le_zero 0)
  | [c] =>
    obtain ⟨d, w, rfl⟩ := List.exists_cons_of_ne_nil hw
    have hline : ¬(c = '\r' ∧ d = '\n') := by
      rintro ⟨rfl, rfl⟩
      exact absurd h (by simp [breakLength])
    rw [List.singleton_append, List.singleton_append, breakLength_cons_cons hline,
      breakLength_cons_cons (hb.not_newline)]
  | c :: d :: a =>
    rw [List.cons_append, List.cons_append, List.cons_append, List.cons_append]
    by_cases hline : c = '\r' ∧ d = '\n'
    · obtain ⟨rfl, rfl⟩ := hline
      rfl
    · rw [breakLength_cons_cons hline, breakLength_cons_cons hline]

theorem escapeEndLength_bar {a : List Char} (h : escapeEndLength (a ++ w) ≤ a.length) :
    escapeEndLength (a ++ b :: z) = escapeEndLength (a ++ w) := by
  cases a with
  | nil =>
    rw [List.nil_append, escapeEndLength, hb.space]
    exact (Nat.le_zero.1 h).symm
  | cons c a =>
    rw [List.cons_append, escapeEndLength] at h
    rw [List.cons_append, List.cons_append, escapeEndLength, escapeEndLength]
    split at h
    · rename_i hspace
      have hbreak : breakLength (c :: a ++ b :: z) = breakLength (c :: a ++ w) :=
        breakLength_bar hb hw z h
      rw [if_pos hspace, if_pos hspace]
      exact hbreak
    · rename_i hspace
      rw [if_neg hspace, if_neg hspace]

theorem escapeLength_bar {a : List Char} (h : escapeLength (a ++ w) ≤ a.length) :
    escapeLength (a ++ b :: z) = escapeLength (a ++ w) := by
  have hdigits := escapeDigits_bar (w := w) hb z
    ((length_escapeDigits_le_escapeLength _).trans h)
  by_cases hnone : escapeDigits (a ++ w) = []
  · cases a with
    | nil =>
      have hone : 1 ≤ escapeLength ([] ++ w) := one_le_escapeLength hw
      exact absurd (hone.trans h) (Nat.not_succ_le_zero 0)
    | cons c a =>
      rw [escapeLength_of_no_digits hnone, escapeLength_of_no_digits (hdigits.trans hnone)]
      simp
  · rw [escapeLength_of_digits hnone] at h
    have hle : (escapeDigits (a ++ w)).length ≤ a.length := by omega
    rw [escapeLength_of_digits hnone, escapeLength_of_digits (by rwa [hdigits]), hdigits,
      List.drop_append_of_le_length hle, List.drop_append_of_le_length hle]
    rw [List.drop_append_of_le_length hle] at h
    rw [escapeEndLength_bar hb hw z]
    rw [List.length_drop]
    omega

omit hw in
theorem escapeChar_bar {a : List Char} (ha : a ≠ []) (h : escapeLength (a ++ w) ≤ a.length) :
    escapeChar (a ++ b :: z) = escapeChar (a ++ w) := by
  have hdigits := escapeDigits_bar (w := w) hb z
    ((length_escapeDigits_le_escapeLength _).trans h)
  obtain ⟨c, a, rfl⟩ := List.exists_cons_of_ne_nil ha
  unfold escapeChar
  rw [hdigits]
  rfl

/-! ## Names -/

omit hb hw in
theorem le_nameLength {pass : Nat} {cs : List Char} (h : pass ≤ cs.length) :
    pass ≤ nameLength pass cs := by
  induction cs generalizing pass with
  | nil => exact h
  | cons c cs ih =>
    cases pass with
    | zero => exact Nat.zero_le _
    | succ pass =>
      rw [nameLength]
      exact Nat.succ_le_succ (ih (Nat.le_of_succ_le_succ h))

theorem nameLength_bar {pass : Nat} {a : List Char}
    (h : EndsIn a (nameLength pass (a ++ w))) :
    nameLength pass (a ++ b :: z) = nameLength pass (a ++ w) := by
  induction a generalizing pass with
  | nil =>
    have hzero : nameLength pass w = 0 := Nat.le_zero.1 h.le
    cases pass with
    | zero => exact (nameLength_cons_of_not hb.name hb.backslash z).trans hzero.symm
    | succ pass =>
      obtain ⟨c, w, rfl⟩ := List.exists_cons_of_ne_nil hw
      exact absurd hzero (Nat.succ_ne_zero _)
  | cons c a ih =>
    rw [List.cons_append] at h
    rw [List.cons_append, List.cons_append]
    cases pass with
    | succ pass =>
      rw [nameLength] at h
      rw [nameLength, nameLength, ih h.of_cons]
    | zero =>
      by_cases hname : continuesName c = true
      · rw [nameLength_cons_of_continues hname] at h
        rw [nameLength_cons_of_continues hname, nameLength_cons_of_continues hname, ih h.of_cons]
      by_cases hslash : c = '\\'
      · subst hslash
        rw [nameLength_backslash] at h
        rw [nameLength_backslash, nameLength_backslash]
        by_cases ha : a = []
        · subst ha
          rw [List.nil_append] at h
          split at h
          · exact absurd rfl h.left
          · have hpass := le_nameLength (escapeLength_le_length w)
            have := one_le_escapeLength hw
            have hle : nameLength (escapeLength w) w + 1 ≤ 1 := h.le
            omega
        · rw [startsBreak_append (w := w) ha]
          split at h
          · rename_i hbreak
            rw [if_pos hbreak, if_pos hbreak]
          · rename_i hbreak
            have hle := h.of_cons.le
            have hescape : escapeLength (a ++ w) ≤ a.length :=
              (le_nameLength (escapeLength_le_length _)).trans hle
            rw [if_neg hbreak, if_neg hbreak, escapeLength_bar hb hw z hescape, ih h.of_cons]
      · have hnot : continuesName c = false := by simpa using hname
        rw [nameLength_cons_of_not hnot hslash, nameLength_cons_of_not hnot hslash]

omit hb hw in
theorem nameText_eq_nil {cs : List Char} (h : nameLength 0 cs = 0) : nameText 0 cs = [] := by
  cases cs with
  | nil => rfl
  | cons c cs =>
    rw [nameLength] at h
    rw [nameText]
    split_ifs at h ⊢
    rfl

/-- The text of a name ends where its length does. -/
theorem nameText_bar {pass : Nat} {a : List Char}
    (h : EndsIn a (nameLength pass (a ++ w))) :
    nameText pass (a ++ b :: z) = nameText pass (a ++ w) := by
  induction a generalizing pass with
  | nil =>
    have hzero : nameLength pass w = 0 := Nat.le_zero.1 h.le
    cases pass with
    | zero =>
      have hbar := nameLength_cons_of_not hb.name hb.backslash z
      exact (nameText_eq_nil hbar).trans (nameText_eq_nil hzero).symm
    | succ pass =>
      obtain ⟨c, w, rfl⟩ := List.exists_cons_of_ne_nil hw
      exact absurd hzero (Nat.succ_ne_zero _)
  | cons c a ih =>
    rw [List.cons_append] at h
    rw [List.cons_append, List.cons_append]
    cases pass with
    | succ pass =>
      rw [nameLength] at h
      exact ih h.of_cons
    | zero =>
      have hlength : nameLength 0 (c :: (a ++ b :: z)) = nameLength 0 (c :: (a ++ w)) :=
        nameLength_bar hb hw z h
      rw [nameLength] at h
      by_cases hname : continuesName c = true
      · rw [if_pos hname] at h
        rw [nameText, nameText, if_pos hname, if_pos hname, ih h.of_cons]
      rw [if_neg hname] at h
      split at h
      · rename_i hescape
        have hle := (le_nameLength (escapeLength_le_length _)).trans h.of_cons.le
        have ha : a ≠ [] := by
          rintro rfl
          have hone : 1 ≤ escapeLength ([] ++ w) := one_le_escapeLength hw
          exact absurd (hone.trans hle) (Nat.not_succ_le_zero 0)
        rw [nameText, nameText, if_neg hname, if_neg hname, startsBreak_append (w := w) ha,
          if_pos hescape, if_pos hescape, escapeLength_bar hb hw z hle, escapeChar_bar hb z ha hle,
          ih h.of_cons]
      · rename_i hescape
        have hzero : nameLength 0 (c :: (a ++ w)) = 0 := by
          rw [nameLength, if_neg hname, if_neg hescape]
        rw [nameText_eq_nil hzero, nameText_eq_nil (hlength.trans hzero)]

omit hb

/-! ## Strings -/

omit hw in
theorem stringEscapeLength_le_length (cs : List Char) : stringEscapeLength cs ≤ cs.length := by
  rw [stringEscapeLength]
  split
  · exact breakLength_le_length cs
  · exact escapeLength_le_length cs

omit hw in
theorem one_le_stringEscapeLength {cs : List Char} (h : cs ≠ []) : 1 ≤ stringEscapeLength cs := by
  rw [stringEscapeLength]
  split
  · exact one_le_breakLength h
  · exact one_le_escapeLength h

theorem ne_nil_of_stringEscapeLength_le {a : List Char}
    (h : stringEscapeLength (a ++ w) ≤ a.length) : a ≠ [] := by
  rintro rfl
  exact absurd ((one_le_stringEscapeLength hw).trans h) (Nat.not_succ_le_zero 0)

theorem stringEscapeLength_slash {a : List Char} (h : stringEscapeLength (a ++ w) ≤ a.length) :
    stringEscapeLength (a ++ '/' :: z) = stringEscapeLength (a ++ w) := by
  have ha := ne_nil_of_stringEscapeLength_le hw h
  rw [stringEscapeLength] at h
  rw [stringEscapeLength, stringEscapeLength, startsBreak_append (w := w) ha]
  split at h
  · rename_i hbreak
    rw [if_pos hbreak, if_pos hbreak, breakLength_bar isBar_slash hw z h]
  · rename_i hbreak
    rw [if_neg hbreak, if_neg hbreak, escapeLength_bar isBar_slash hw z h]

/-- A string that ends in `a`: with its quote, or in front of a line break in `a`. -/
structure StringEndsIn (a : List Char) (x : Nat × Bool) : Prop where
  le : x.1 ≤ a.length
  lt : x.2 = true → x.1 < a.length

section

variable {quote : Char}

omit hw

theorem StringEndsIn.of_past {a : List Char} {c : Char} {x : Nat × Bool}
    (h : StringEndsIn (c :: a) (past x)) : StringEndsIn a x where
  le := Nat.le_of_succ_le_succ h.le
  lt := fun hbad => Nat.lt_of_succ_lt_succ (h.lt hbad)

theorem le_stringLength {pass : Nat} {cs : List Char} (h : pass ≤ cs.length) :
    pass ≤ (stringLength quote pass cs).1 := by
  induction cs generalizing pass with
  | nil => exact h
  | cons c cs ih =>
    cases pass with
    | zero => exact Nat.zero_le _
    | succ pass => exact Nat.succ_le_succ (ih (Nat.le_of_succ_le_succ h))

include hw

/-- A string goes on with what follows, unless that is a line break. -/
theorem not_stringEndsIn_nil (pass : Nat) : ¬StringEndsIn [] (stringLength quote pass w) := by
  intro h
  obtain ⟨c, w, rfl⟩ := List.exists_cons_of_ne_nil hw
  have hle : (stringLength quote pass (c :: w)).1 = 0 := Nat.le_zero.1 h.le
  have hlt := mt h.lt (Nat.not_lt_zero _)
  cases pass with
  | succ pass => exact absurd hle (Nat.succ_ne_zero _)
  | zero =>
    rw [stringLength] at hle hlt
    split_ifs at hle hlt
    simp at hle hlt

theorem stringLength_slash (hquote : quote ≠ '\\') {pass : Nat} {a : List Char}
    (h : StringEndsIn a (stringLength quote pass (a ++ w))) :
    stringLength quote pass (a ++ '/' :: z) = stringLength quote pass (a ++ w) := by
  induction a generalizing pass with
  | nil => exact absurd h (not_stringEndsIn_nil hw pass)
  | cons c a ih =>
    rw [List.cons_append] at h
    rw [List.cons_append, List.cons_append]
    cases pass with
    | succ pass => exact congrArg past (ih h.of_past)
    | zero =>
      by_cases hclose : c = quote
      · simp [stringLength, hclose]
      by_cases hbreak : isBreak c = true
      · simp [stringLength, hclose, hbreak]
      by_cases hc : c = '\\'
      · subst hc
        rw [stringLength_backslash hquote] at h
        have hle := (le_stringLength (stringEscapeLength_le_length _)).trans h.of_past.le
        rw [stringLength_backslash hquote, stringLength_backslash hquote,
          stringEscapeLength_slash hw z hle, ih h.of_past]
      · have hcons := stringLength_cons hclose (by simpa using hbreak) hc
        rw [hcons] at h
        rw [hcons, hcons, ih h.of_past]

/-- The text of a string ends where its length does. -/
theorem stringText_slash (hquote : quote ≠ '\\') {pass : Nat} {a : List Char}
    (h : StringEndsIn a (stringLength quote pass (a ++ w))) :
    stringText quote pass (a ++ '/' :: z) = stringText quote pass (a ++ w) := by
  induction a generalizing pass with
  | nil => exact absurd h (not_stringEndsIn_nil hw pass)
  | cons c a ih =>
    rw [List.cons_append] at h
    rw [List.cons_append, List.cons_append]
    cases pass with
    | succ pass => exact ih (h : StringEndsIn (c :: a) (past _)).of_past
    | zero =>
      rw [stringText, stringText]
      by_cases hstop : c = quote ∨ isBreak c = true
      · rcases hstop with hstop | hstop <;> simp [hstop]
      obtain ⟨hclose, hbreak⟩ := not_or.1 hstop
      by_cases hc : c = '\\'
      · subst hc
        rw [stringLength_backslash hquote] at h
        have hle := (le_stringLength (stringEscapeLength_le_length _)).trans h.of_past.le
        have ha := ne_nil_of_stringEscapeLength_le hw hle
        have hempty : ∀ v, (a ++ v).isEmpty = false := by simp [ha]
        have hrest := ih h.of_past
        rw [stringEscapeLength] at hle hrest
        rw [startsBreak_append (w := w) ha, hempty, hempty]
        cases hline : startsBreak (a ++ w) with
        | true =>
          rw [hline, if_pos rfl] at hle hrest
          simp [breakLength_bar isBar_slash hw z hle, hrest]
        | false =>
          rw [hline, if_neg Bool.false_ne_true] at hle hrest
          simp [escapeLength_bar isBar_slash hw z hle, escapeChar_bar isBar_slash z ha hle, hrest]
      · rw [stringLength_cons hclose (by simpa using hbreak) hc] at h
        simp [hclose, hbreak, hc, ih h.of_past]

end

/-! ## Addresses -/

omit hw in
theorem le_urlLength {pass : Nat} {cs : List Char} (h : pass ≤ cs.length) :
    pass ≤ (urlLength pass cs).1 := by
  induction cs generalizing pass with
  | nil => exact h
  | cons c cs ih =>
    cases pass with
    | zero => exact Nat.zero_le _
    | succ pass => exact Nat.succ_le_succ (ih (Nat.le_of_succ_le_succ h))

omit hw in
theorem badUrlLength_slash {pass : Nat} {a : List Char}
    (h : badUrlLength pass (a ++ w) < a.length) :
    badUrlLength pass (a ++ '/' :: z) = badUrlLength pass (a ++ w) := by
  induction a generalizing pass with
  | nil => exact absurd h (Nat.not_lt_zero _)
  | cons c a ih =>
    rw [List.cons_append] at h
    rw [List.cons_append, List.cons_append]
    cases pass with
    | succ pass =>
      rw [badUrlLength] at h
      rw [badUrlLength, badUrlLength, ih (Nat.lt_of_succ_lt_succ h)]
    | zero =>
      by_cases hclose : c = ')'
      · simp [badUrlLength, hclose]
      have ha : a ≠ [] := by
        rintro rfl
        simp only [badUrlLength, beq_iff_eq, hclose, if_false] at h
        split_ifs at h <;> simp at h
      rw [badUrlLength] at h
      rw [badUrlLength, badUrlLength, head?_append (w := w) ha]
      split_ifs at h ⊢ with hend hescape
      · rfl
      · rw [ih (Nat.lt_of_succ_lt_succ h)]
      · rw [ih (Nat.lt_of_succ_lt_succ h)]

omit hw in
theorem urlEndLength_slash {a : List Char} (h : (urlEndLength (a ++ w)).1 < a.length) :
    urlEndLength (a ++ '/' :: z) = urlEndLength (a ++ w) := by
  induction a with
  | nil => exact absurd h (Nat.not_lt_zero _)
  | cons c a ih =>
    rw [List.cons_append] at h
    rw [List.cons_append, List.cons_append]
    rw [urlEndLength] at h
    rw [urlEndLength, urlEndLength]
    split_ifs at h ⊢ with hclose hspace
    · rfl
    · rw [ih (Nat.lt_of_succ_lt_succ h)]
    · rw [badUrlLength_slash z (Nat.lt_of_succ_lt_succ h)]

theorem urlLength_slash {pass : Nat} {a : List Char}
    (h : (urlLength pass (a ++ w)).1 < a.length) :
    urlLength pass (a ++ '/' :: z) = urlLength pass (a ++ w) := by
  induction a generalizing pass with
  | nil => exact absurd h (Nat.not_lt_zero _)
  | cons c a ih =>
    rw [List.cons_append] at h
    rw [List.cons_append, List.cons_append]
    cases pass with
    | succ pass => exact congrArg past (ih (Nat.lt_of_succ_lt_succ h))
    | zero =>
      by_cases hclose : c = ')'
      · simp [urlLength, hclose]
      rw [urlLength_cons hclose] at h
      rw [urlLength_cons hclose, urlLength_cons hclose]
      have hlt : (urlRest c (a ++ w)).1 < a.length := Nat.lt_of_succ_lt_succ h
      have ha : a ≠ [] := List.ne_nil_of_length_pos (Nat.zero_lt_of_lt hlt)
      refine congrArg past ?_
      rw [urlRest] at hlt
      rw [urlRest, urlRest, startsBreak_append (w := w) ha]
      split_ifs at hlt ⊢ with hspace hspoils hescape hbreak
      · exact urlEndLength_slash z hlt
      · rw [badUrlLength_slash z hlt]
      · rw [badUrlLength_slash z hlt]
      · have hle := (le_urlLength (escapeLength_le_length _)).trans hlt.le
        rw [escapeLength_bar isBar_slash hw z hle, ih hlt]
      · exact ih hlt

/-! ## Comments and numbers -/

theorem commentLength_slash {a : List Char} (h : commentLength (a ++ w) ≤ a.length) :
    commentLength (a ++ '/' :: z) = commentLength (a ++ w) := by
  have hone : 1 ≤ commentLength w := by
    unfold commentLength
    split <;> simp_all
  induction a with
  | nil => exact absurd (hone.trans h) (Nat.not_succ_le_zero 0)
  | cons c a ih =>
    rw [List.cons_append] at h
    rw [List.cons_append, List.cons_append]
    by_cases hclose : c = '*' ∧ (a ++ w).head? = some '/'
    · obtain ⟨rfl, hhead⟩ := hclose
      obtain ⟨v, hv⟩ : ∃ v, a ++ w = '/' :: v := by
        cases hcs : a ++ w with
        | nil => exact absurd (hcs ▸ hhead) (by simp)
        | cons d v =>
          rw [hcs] at hhead
          exact ⟨v, by rw [Option.some.inj hhead]⟩
      rw [hv, commentLength] at h
      cases a with
      | nil => exact absurd h (by simp)
      | cons d a =>
        obtain ⟨rfl, -⟩ := List.cons.inj hv
        rfl
    · rw [commentLength_cons hclose] at h
      have hle := Nat.le_of_succ_le_succ h
      have ha : a ≠ [] := by
        rintro rfl
        exact absurd (hone.trans hle) (Nat.not_succ_le_zero 0)
      rw [commentLength_cons hclose, commentLength_cons (by rwa [head?_append (w := w) ha]), ih hle]

omit hw in
theorem atName_append {a : List Char} (hnil : a ≠ []) (hdash : a ≠ ['-']) (hslash : a ≠ ['\\'])
    (v : List Char) : atName (a ++ v) = atName (a ++ w) := by
  match a with
  | [] => exact absurd rfl hnil
  | [c] =>
    have hc : c ≠ '-' := fun h => hdash (by rw [h])
    have hc' : c ≠ '\\' := fun h => hslash (by rw [h])
    simp [atName, hc]
  | c :: d :: a =>
    by_cases hc : c = '-'
    · subst hc
      rfl
    · by_cases hc' : c = '\\'
      · subst hc'
        rfl
      · simp [atName, hc]

omit hw in
/-- Where a name begins it has a character, and the dash in front of one is not alone. -/
theorem one_le_nameLength {cs : List Char} (h : atName cs = true) : 1 ≤ nameLength 0 cs := by
  cases cs with
  | nil => exact absurd h Bool.false_ne_true
  | cons c cs =>
    by_cases hname : continuesName c = true
    · rw [nameLength_cons_of_continues hname]
      exact Nat.le_add_left _ _
    by_cases hslash : c = '\\'
    · subst hslash
      have hbreak : startsBreak cs = false := by simpa [atName] using h
      rw [nameLength_backslash, hbreak]
      exact Nat.le_add_left _ _
    · have hdash : c ≠ '-' := by
        rintro rfl
        exact hname rfl
      have hbegins : beginsName c = true := by simpa [atName, hdash, hslash] using h
      exact absurd (show continuesName c = true by simp [continuesName, hbegins]) hname

omit hw in
/-- Behind a dash a name goes on, unless a backslash there escapes nothing. -/
theorem two_le_nameLength_dash (hw : ¬StartsLone w) (h : atName ('-' :: w) = true) :
    2 ≤ nameLength 0 ('-' :: w) := by
  have hdash : nameLength 0 ('-' :: w) = nameLength 0 w + 1 :=
    nameLength_cons_of_continues rfl w
  cases w with
  | nil => exact absurd h Bool.false_ne_true
  | cons c w =>
    have hone : 1 ≤ nameLength 0 (c :: w) := by
      by_cases hname : continuesName c = true
      · rw [nameLength_cons_of_continues hname]
        exact Nat.le_add_left _ _
      · have hc : c = '\\' := by
          simp only [atName, Bool.or_eq_true, beq_iff_eq] at h
          simp only [continuesName, Bool.or_eq_true, beq_iff_eq, not_or] at hname
          exact h.resolve_left fun hc => hc.elim hname.1.1 hname.2
        subst hc
        have hbreak : ¬startsBreak w = true := fun hbreak => hw ⟨w, rfl, hbreak⟩
        rw [nameLength_backslash, if_neg hbreak]
        exact Nat.le_add_left _ _
    omega

omit hw in
theorem two_le_nameLength_backslash (hw : w ≠ []) (h : atName ('\\' :: w) = true) :
    2 ≤ nameLength 0 ('\\' :: w) := by
  have hbreak : startsBreak w = false := by simpa [atName] using h
  have hpass := le_nameLength (escapeLength_le_length w)
  have hone := one_le_escapeLength hw
  rw [nameLength_backslash, hbreak, if_neg Bool.false_ne_true]
  omega

/-- How many characters the name takes that perhaps begins here. -/
def nameLength? (cs : List Char) : Nat := if atName cs then nameLength 0 cs else 0

theorem nameLength?_slash {a : List Char} (h : EndsIn a (nameLength? (a ++ w)))
    (hdash : NoDash w a) :
    nameLength? (a ++ '/' :: z) = nameLength? (a ++ w) := by
  have hle := h.le
  have hone : ∀ cs, atName cs = true → 1 ≤ nameLength? cs := by
    intro cs hcs
    rw [nameLength?, if_pos hcs]
    exact one_le_nameLength hcs
  by_cases hnil : a = []
  · subst hnil
    have hnot : ¬atName w = true := fun hname => absurd ((hone w hname).trans hle) (by simp)
    rw [List.nil_append, List.nil_append, nameLength?, nameLength?, if_neg hnot]
    rfl
  by_cases hsingle : a = ['-']
  · subst hsingle
    have hnot : ¬atName ('-' :: w) = true := by
      intro hname
      have htwo := two_le_nameLength_dash (hdash rfl) hname
      rw [List.singleton_append, nameLength?, if_pos hname] at hle
      exact absurd (htwo.trans hle) (by simp)
    rw [List.singleton_append, List.singleton_append, nameLength?, nameLength?, if_neg hnot]
    rfl
  by_cases hslash : a = ['\\']
  · subst hslash
    have hnot : ¬atName ('\\' :: w) = true := by
      intro hname
      have htwo := two_le_nameLength_backslash hw hname
      rw [List.singleton_append, nameLength?, if_pos hname] at hle
      exact absurd (htwo.trans hle) (by simp)
    refine absurd ?_ h.left
    rw [List.singleton_append, nameLength?, if_neg hnot]
    rfl
  · rw [nameLength?] at h
    rw [nameLength?, nameLength?, atName_append (w := w) hnil hsingle hslash]
    split at h
    · rename_i hname
      rw [if_pos hname, if_pos hname, nameLength_bar isBar_slash hw z h]
    · rename_i hname
      rw [if_neg hname, if_neg hname]

theorem unitLength_slash {a : List Char} (h : EndsIn a (unitLength (a ++ w)))
    (hdash : NoDash w a) :
    unitLength (a ++ '/' :: z) = unitLength (a ++ w) := by
  have hunit : ∀ cs, unitLength cs = if cs.head? == some '%' then 1 else nameLength? cs :=
    fun _ => rfl
  rw [hunit] at h
  rw [hunit, hunit]
  cases a with
  | nil =>
    split at h
    · exact absurd h.le (by simp)
    · rename_i hpercent
      rw [if_neg hpercent, ← nameLength?_slash hw z h hdash]
      rfl
  | cons c a =>
    rw [head?_append (w := w) (List.cons_ne_nil c a)]
    split at h
    · rename_i hpercent
      rw [if_pos hpercent, if_pos hpercent]
    · rename_i hpercent
      rw [if_neg hpercent, if_neg hpercent, nameLength?_slash hw z h hdash]

omit hw in
theorem one_le_digitRun {cs : List Char} (h : startsDigit cs = true) : 1 ≤ digitRun cs := by
  cases cs with
  | nil => exact absurd h Bool.false_ne_true
  | cons c cs =>
    have hdigit : c.isDigit = true := h
    rw [digitRun, List.takeWhile_cons, if_pos hdigit]
    exact Nat.le_add_left _ _

omit hw in
theorem fractionLength_slash {a : List Char} (h : fractionLength (a ++ w) ≤ a.length) :
    fractionLength (a ++ '/' :: z) = fractionLength (a ++ w) := by
  cases a with
  | nil => exact (Nat.le_zero.1 h).symm
  | cons c a =>
    by_cases hc : c = '.'
    · subst hc
      simp only [List.cons_append, fractionLength] at h ⊢
      by_cases ha : a = []
      · subst ha
        split at h
        · rename_i hdigit
          have hone := one_le_digitRun hdigit
          exact absurd ((Nat.succ_le_succ hone).trans h) (by simp)
        · rename_i hdigit
          rw [if_neg hdigit]
          rfl
      · rw [startsDigit_append (w := w) ha]
        split at h
        · rename_i hdigit
          rw [if_pos hdigit, if_pos hdigit, digitRun_slash z (Nat.le_of_succ_le_succ h)]
        · rename_i hdigit
          rw [if_neg hdigit, if_neg hdigit]
    · simp [fractionLength, hc]

/-- What an exponent takes after its letter, if it is one. -/
def exponentRest : List Char → Nat
  | c :: ds =>
    if c.isDigit then digitRun (c :: ds) + 1
    else if (c == '+' || c == '-') && startsDigit ds then digitRun ds + 2
    else 0
  | [] => 0

omit hw in
theorem exponentLength_cons (e : Char) (cs : List Char) :
    exponentLength (e :: cs) = if e == 'e' || e == 'E' then exponentRest cs else 0 := by
  cases cs <;> rfl

omit hw in
theorem exponentRest_slash {a : List Char} (h : exponentRest (a ++ w) ≤ a.length + 1) :
    exponentRest (a ++ '/' :: z) = exponentRest (a ++ w) := by
  match a with
  | [] =>
    have hzero : exponentRest w = 0 := by
      cases w with
      | nil => rfl
      | cons c w =>
        rw [List.nil_append, exponentRest] at h
        rw [exponentRest]
        split_ifs at h ⊢ with hdigit hsign
        · have hone : 1 ≤ digitRun (c :: w) := one_le_digitRun hdigit
          exact absurd h (by simp only [List.length_nil]; omega)
        · exact absurd h (by simp)
        · rfl
    exact hzero.symm
  | c :: a =>
    rw [List.cons_append, exponentRest] at h
    rw [List.cons_append, List.cons_append, exponentRest, exponentRest]
    by_cases hdigit : c.isDigit = true
    · have hrun : digitRun (c :: a ++ '/' :: z) = digitRun (c :: a ++ w) :=
        digitRun_slash z (by rw [if_pos hdigit] at h; exact Nat.le_of_succ_le_succ h)
      rw [if_pos hdigit, if_pos hdigit]
      exact congrArg (· + 1) hrun
    rw [if_neg hdigit] at h
    rw [if_neg hdigit, if_neg hdigit]
    by_cases ha : a = []
    · subst ha
      split at h
      · rename_i hsign
        have hone := one_le_digitRun (Bool.and_eq_true_iff.1 hsign).2
        exact absurd h (by simp only [List.length_singleton, List.nil_append] at *; omega)
      · rename_i hsign
        rw [if_neg hsign, if_neg (by simp [startsDigit])]
    · rw [startsDigit_append (w := w) ha]
      split at h
      · rename_i hsign
        have hle : digitRun (a ++ w) ≤ a.length := by
          rw [List.length_cons] at h
          omega
        rw [if_pos hsign, if_pos hsign, digitRun_slash z hle]
      · rename_i hsign
        rw [if_neg hsign, if_neg hsign]

omit hw in
theorem exponentLength_slash {a : List Char} (h : exponentLength (a ++ w) ≤ a.length) :
    exponentLength (a ++ '/' :: z) = exponentLength (a ++ w) := by
  cases a with
  | nil => exact (Nat.le_zero.1 h).symm
  | cons e a =>
    rw [List.cons_append, exponentLength_cons] at h
    rw [List.cons_append, List.cons_append, exponentLength_cons, exponentLength_cons]
    split at h
    · rename_i he
      rw [if_pos he, if_pos he, exponentRest_slash z h]
    · rename_i he
      rw [if_neg he, if_neg he]

theorem numberLength_slash {a : List Char} (h : EndsIn a (numberLength (a ++ w)))
    (hdash : NoDash w a) :
    numberLength (a ++ '/' :: z) = numberLength (a ++ w) := by
  simp only [numberLength] at h ⊢
  have hle := h.le
  have hwhole : digitRun (a ++ w) ≤ a.length := by omega
  rw [digitRun_slash z hwhole]
  generalize digitRun (a ++ w) = whole at *
  rw [List.drop_append_of_le_length hwhole] at h hle ⊢
  rw [List.drop_append_of_le_length hwhole]
  have hlength : (a.drop whole).length = a.length - whole := List.length_drop
  have hfraction : fractionLength (a.drop whole ++ w) ≤ (a.drop whole).length := by omega
  rw [fractionLength_slash z hfraction]
  generalize fractionLength (a.drop whole ++ w) = fraction at *
  rw [List.drop_append_of_le_length hfraction] at h hle ⊢
  rw [List.drop_append_of_le_length hfraction]
  have hlength' : ((a.drop whole).drop fraction).length = (a.drop whole).length - fraction :=
    List.length_drop
  have hexponent : exponentLength ((a.drop whole).drop fraction ++ w) ≤
      ((a.drop whole).drop fraction).length := by omega
  rw [exponentLength_slash z hexponent]
  generalize exponentLength ((a.drop whole).drop fraction ++ w) = exponent at *
  rw [List.drop_append_of_le_length hexponent] at h ⊢
  rw [List.drop_append_of_le_length hexponent]
  have hunit := h.of_drop
  rw [← List.drop_drop, ← List.drop_drop] at hunit
  rw [unitLength_slash hw z hunit (((hdash.of_drop _).of_drop _).of_drop _)]

omit hw in
theorem two_le_numberLength {cs : List Char} (h : startsDigit cs = true) :
    2 ≤ numberLength ('.' :: cs) := by
  have hwhole : digitRun ('.' :: cs) = 0 := rfl
  have hone := one_le_digitRun h
  simp only [numberLength, hwhole, List.drop_zero, fractionLength, h, if_true]
  omega

omit hw in
theorem one_le_numberLength {cs : List Char} (h : startsNumber cs = true) :
    1 ≤ numberLength cs := by
  cases cs with
  | nil => exact absurd h Bool.false_ne_true
  | cons c cs =>
    by_cases hc : c = '.'
    · subst hc
      exact Nat.le_of_succ_le (two_le_numberLength h)
    · have hdigit : startsDigit (c :: cs) = true := by simpa [startsNumber, hc] using h
      have hone := one_le_digitRun hdigit
      simp only [numberLength]
      omega

omit hw in
/-- A number does not begin with a slash in place of what it began with, unless it is not over. -/
theorem startsNumber_slash {a : List Char}
    (h : startsNumber (a ++ w) = true → numberLength (a ++ w) ≤ a.length) :
    startsNumber (a ++ '/' :: z) = startsNumber (a ++ w) := by
  match a with
  | [] =>
    cases hnumber : startsNumber w with
    | false => exact hnumber.symm
    | true => exact absurd ((one_le_numberLength hnumber).trans (h hnumber)) (by simp)
  | c :: d :: a =>
    by_cases hc : c = '.'
    · subst hc
      rfl
    · simp [startsNumber, hc, startsDigit]
  | [c] =>
    by_cases hc : c = '.'
    · subst hc
      cases hdigit : startsDigit w with
      | false => exact hdigit.symm
      | true => exact absurd ((two_le_numberLength hdigit).trans (h hdigit)) (by simp)
    · simp [startsNumber, hc, startsDigit]

/-! ## Marks of several characters -/

omit hw in
theorem take_slash_beq {v : List Char} (hv : '/' ∉ v) {a : List Char}
    (h : ((a ++ w).take v.length == v) = true → v.length ≤ a.length) :
    ((a ++ '/' :: z).take v.length == v) = ((a ++ w).take v.length == v) := by
  by_cases hle : v.length ≤ a.length
  · rw [List.take_append_of_le_length hle, List.take_append_of_le_length hle]
  · have hfalse : ((a ++ w).take v.length == v) = false := by
      rw [Bool.eq_false_iff]
      exact fun hv => hle (h hv)
    rw [hfalse, beq_eq_false_iff_ne]
    intro htake
    have hmem : '/' ∈ (a ++ '/' :: z).take v.length := by
      rw [List.take_append]
      obtain ⟨k, hk⟩ : ∃ k, v.length - a.length = k + 1 := ⟨v.length - a.length - 1, by omega⟩
      rw [hk, List.take_succ_cons]
      exact List.mem_append_right _ List.mem_cons_self
    exact hv (htake ▸ hmem)

/-- How many characters a name or a number takes behind a hash. -/
def hashLength : List Char → Nat
  | d :: ds => if atName (d :: ds) || d.isDigit || d == '-' then nameLength 0 (d :: ds) else 0
  | [] => 0

theorem hashLength_slash {a : List Char} (h : EndsIn a (hashLength (a ++ w))) :
    hashLength (a ++ '/' :: z) = hashLength (a ++ w) := by
  have hle := h.le
  match a with
  | [] => exact (Nat.le_zero.1 hle).symm
  | d :: a =>
    rw [List.cons_append, hashLength] at h hle
    rw [List.cons_append, List.cons_append, hashLength, hashLength]
    by_cases hslash : d :: a = ['\\']
    · obtain ⟨rfl, rfl⟩ := List.cons.inj hslash
      have hnot : ¬atName ('\\' :: w) = true := by
        intro hname
        have htwo := two_le_nameLength_backslash hw hname
        simp only [List.nil_append, hname, Bool.true_or, if_true, List.length_singleton] at hle
        omega
      refine absurd ?_ h.left
      simp [hnot]
    have hcond : (atName (d :: (a ++ '/' :: z)) || d.isDigit || d == '-') =
        (atName (d :: (a ++ w)) || d.isDigit || d == '-') := by
      by_cases hdash : d :: a = ['-']
      · obtain ⟨rfl, rfl⟩ := List.cons.inj hdash
        simp
      · have hname : atName (d :: a ++ '/' :: z) = atName (d :: a ++ w) :=
          atName_append (List.cons_ne_nil d a) hdash hslash _
        rw [List.cons_append, List.cons_append] at hname
        rw [hname]
    rw [hcond]
    split at h
    · rename_i hname
      rw [if_pos hname, if_pos hname]
      exact nameLength_bar isBar_slash hw z h
    · rename_i hname
      rw [if_neg hname, if_neg hname]

end GlyphTrim.Css
