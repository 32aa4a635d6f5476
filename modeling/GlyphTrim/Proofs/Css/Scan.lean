import GlyphTrim.Css.Token
import Mathlib.Data.List.TakeWhile

/-!
# Scans in front of a mark

No scan looks past a semicolon or a closing brace, unless it goes over it. So what a scan finds in
front of such a mark does not depend on the text behind the mark: it is *settled*.
-/

namespace GlyphTrim.Css

open Text (isHexDigit hexNumber)

/-- The marks that no scan looks past. -/
def IsStop (b : Char) : Prop := b = ';' ∨ b = '\x7d'

/-- A scan that never depends on the text behind `b`. -/
def Settled {α : Type} (b : Char) (f : List Char → α) : Prop :=
  ∀ a y z, f (a ++ b :: y) = f (a ++ b :: z)

/-- A scan that does not depend on the text behind `b` where its length ends in front of `b`. -/
def SettledWithin {α : Type} (b : Char) (length : α → Nat) (f : List Char → α) : Prop :=
  ∀ a y z, length (f (a ++ b :: y)) ≤ a.length → f (a ++ b :: z) = f (a ++ b :: y)

theorem Settled.within {α : Type} {b : Char} {f : List Char → α} (h : Settled b f)
    (length : α → Nat) : SettledWithin b length f :=
  fun a y z _ => h a z y

variable {b : Char}

/-! ## Settled everywhere -/

theorem settled_takeWhile {p : Char → Bool} (hb : p b = false) : Settled b (List.takeWhile p) := by
  intro a y z
  induction a with
  | nil => simp [hb]
  | cons c a ih =>
    rw [List.cons_append, List.cons_append, List.takeWhile_cons, List.takeWhile_cons, ih]

theorem length_takeWhile_le {p : Char → Bool} (hb : p b = false) (a y : List Char) :
    ((a ++ b :: y).takeWhile p).length ≤ a.length := by
  induction a with
  | nil => simp [hb]
  | cons c a ih =>
    rw [List.cons_append, List.takeWhile_cons]
    split
    · simpa using ih
    · simp

theorem settled_startsBreak (hb : IsStop b) : Settled b startsBreak := by
  intro a y z
  cases a with
  | nil => obtain rfl | rfl := hb <;> rfl
  | cons c a => rfl

theorem settled_breakLength (hb : IsStop b) : Settled b breakLength := by
  intro a y z
  match a with
  | [] => obtain rfl | rfl := hb <;> simp [breakLength]
  | [c] => obtain rfl | rfl := hb <;> simp [breakLength]
  | c :: d :: a =>
    by_cases hc : c = '\r'
    · subst hc
      by_cases hd : d = '\n'
      · subst hd
        rfl
      · simp [breakLength, hd]
    · simp [breakLength, hc]

theorem settled_escapeDigits (hb : IsStop b) : Settled b escapeDigits := by
  intro a y z
  have hhex : isHexDigit b = false := by obtain rfl | rfl := hb <;> rfl
  have htake : ∀ (a : List Char) (n : Nat), ((a ++ b :: y).take n).takeWhile isHexDigit =
      ((a ++ b :: z).take n).takeWhile isHexDigit := by
    intro a
    induction a with
    | nil => intro n; cases n <;> simp [hhex]
    | cons c a ih => intro n; cases n <;> simp [List.takeWhile_cons, ih]
  exact htake a 6

theorem settled_atName (hb : IsStop b) : Settled b atName := by
  intro a y z
  match a with
  | [] => obtain rfl | rfl := hb <;> simp [atName]
  | [c] =>
    by_cases hc : c = '-'
    · subst hc
      rfl
    · by_cases hc' : c = '\\'
      · subst hc'
        simp [atName, startsBreak]
      · simp [atName, hc]
  | c :: d :: a =>
    by_cases hc : c = '-'
    · subst hc
      rfl
    · by_cases hc' : c = '\\'
      · subst hc'
        simp [atName, startsBreak]
      · simp [atName, hc]

theorem settled_startsDigit : Settled b startsDigit := by
  intro a y z
  cases a <;> rfl

theorem settled_digitRun (hb : IsStop b) : Settled b digitRun := by
  intro a y z
  have hdigit : b.isDigit = false := by obtain rfl | rfl := hb <;> rfl
  rw [digitRun, digitRun, settled_takeWhile hdigit a y z]

theorem settled_startsNumber (hb : IsStop b) : Settled b startsNumber := by
  intro a y z
  cases a with
  | nil => obtain rfl | rfl := hb <;> simp [startsNumber, startsDigit]
  | cons c a =>
    by_cases hc : c = '.'
    · subst hc
      exact settled_startsDigit a y z
    · simp [startsNumber, startsDigit, hc]

theorem length_escapeDigits_le (hb : IsStop b) (a y : List Char) :
    (escapeDigits (a ++ b :: y)).length ≤ a.length := by
  have hhex : isHexDigit b = false := by obtain rfl | rfl := hb <;> rfl
  have htake : ∀ (a : List Char) (n : Nat),
      (((a ++ b :: y).take n).takeWhile isHexDigit).length ≤ a.length := by
    intro a
    induction a with
    | nil => intro n; cases n <;> simp [hhex]
    | cons c a ih =>
      intro n
      cases n with
      | zero => simp
      | succ n =>
        rw [List.cons_append, List.take_succ_cons, List.takeWhile_cons]
        split
        · simpa using ih n
        · simp
  exact htake a 6

theorem settled_escapeLength (hb : IsStop b) : Settled b escapeLength := by
  intro a y z
  have hspace : isSpace b = false := by obtain rfl | rfl := hb <;> rfl
  have hdigits := settled_escapeDigits hb a y z
  have hlen := length_escapeDigits_le hb a y
  rw [escapeLength, escapeLength, ← hdigits]
  cases hempty : (escapeDigits (a ++ b :: y)).isEmpty with
  | true =>
    simp only [if_true, List.length_append, List.length_cons]
    omega
  | false =>
    simp only [Bool.false_eq_true, if_false]
    rw [List.drop_append_of_le_length hlen, List.drop_append_of_le_length hlen]
    cases a.drop (escapeDigits (a ++ b :: y)).length with
    | nil => simp [hspace]
    | cons c a' =>
      have hbreak := settled_breakLength hb (c :: a') y z
      simp only [List.cons_append] at hbreak ⊢
      rw [hbreak]

theorem settled_escapeChar (hb : IsStop b) : Settled b escapeChar := by
  intro a y z
  have hdigits := settled_escapeDigits hb a y z
  unfold escapeChar
  rw [hdigits]
  cases a <;> rfl

theorem settled_fractionLength (hb : IsStop b) : Settled b fractionLength := by
  intro a y z
  cases a with
  | nil => obtain rfl | rfl := hb <;> simp [fractionLength]
  | cons c a =>
    by_cases hc : c = '.'
    · subst hc
      simp only [List.cons_append, fractionLength, settled_startsDigit a y z,
        settled_digitRun hb a y z]
    · simp [fractionLength, hc]

theorem settled_exponentLength (hb : IsStop b) : Settled b exponentLength := by
  intro a y z
  match a with
  | [] => obtain rfl | rfl := hb <;> simp [exponentLength]
  | [e] => obtain rfl | rfl := hb <;> simp [exponentLength]
  | e :: c :: a =>
    have hdigits := settled_digitRun hb (c :: a) y z
    simp only [List.cons_append] at hdigits
    simp only [List.cons_append, exponentLength, hdigits, settled_startsDigit a y z,
      settled_digitRun hb a y z]

/-! ## Settled where they end in front of the mark -/

theorem settledWithin_nameLength (hb : IsStop b) (pass : Nat) :
    SettledWithin b id (nameLength pass) := by
  intro a y z h
  induction a generalizing pass with
  | nil =>
    cases pass with
    | zero => obtain rfl | rfl := hb <;> rfl
    | succ pass => simp [nameLength] at h
  | cons c a ih =>
    rw [List.cons_append, List.cons_append]
    rw [List.cons_append] at h
    cases pass with
    | succ pass =>
      simp only [nameLength, id_eq, List.length_cons, Nat.add_le_add_iff_right] at h ⊢
      rw [ih pass h]
    | zero =>
      simp only [nameLength, id_eq, List.length_cons] at h ⊢
      rw [settled_startsBreak hb a z y, settled_escapeLength hb a z y]
      split_ifs at h ⊢ with hname hescape
      · rw [ih 0 (by simpa using h)]
      · rw [ih _ (by simpa using h)]
      · rfl

/-- The text of a name is settled where its length is. -/
theorem nameText_eq_of_nameLength_le (hb : IsStop b) {pass : Nat} {a y z : List Char}
    (h : nameLength pass (a ++ b :: y) ≤ a.length) :
    nameText pass (a ++ b :: z) = nameText pass (a ++ b :: y) := by
  induction a generalizing pass with
  | nil =>
    cases pass with
    | zero => obtain rfl | rfl := hb <;> rfl
    | succ pass => simp [nameLength] at h
  | cons c a ih =>
    rw [List.cons_append] at h
    cases pass with
    | succ pass =>
      simp only [nameLength, List.length_cons, Nat.add_le_add_iff_right] at h
      exact ih h
    | zero =>
      simp only [nameLength, List.length_cons] at h
      simp only [List.cons_append, nameText]
      rw [settled_startsBreak hb a z y, settled_escapeLength hb a z y, settled_escapeChar hb a z y]
      split_ifs at h ⊢ with hname hescape
      · rw [ih (by simpa using h)]
      · rw [ih (by simpa using h)]
      · rfl

theorem settled_stringEscapeLength (hb : IsStop b) : Settled b stringEscapeLength := by
  intro a y z
  rw [stringEscapeLength, stringEscapeLength, settled_startsBreak hb a y z,
    settled_breakLength hb a y z, settled_escapeLength hb a y z]

theorem settledWithin_stringLength (hb : IsStop b) {quote : Char} (hquote : ¬IsStop quote)
    (pass : Nat) : SettledWithin b (·.1) (stringLength quote pass) := by
  have hne : (b == quote) = false := by
    rw [beq_eq_false_iff_ne]
    rintro rfl
    exact hquote hb
  intro a y z h
  induction a generalizing pass with
  | nil =>
    cases pass with
    | zero => obtain rfl | rfl := hb <;> simp [stringLength, hne, isBreak] at h
    | succ pass => simp [stringLength] at h
  | cons c a ih =>
    rw [List.cons_append, List.cons_append]
    rw [List.cons_append] at h
    cases pass with
    | succ pass =>
      simp only [stringLength, List.length_cons, Nat.add_le_add_iff_right] at h ⊢
      rw [ih pass h]
    | zero =>
      simp only [stringLength, List.length_cons] at h ⊢
      rw [settled_stringEscapeLength hb a z y]
      split_ifs at h ⊢ with hclose hbreak hescape
      · rfl
      · rfl
      · rw [ih _ (by simpa using h)]
      · rw [ih _ (by simpa using h)]

theorem settledWithin_badUrlLength (hb : IsStop b) (pass : Nat) :
    SettledWithin b id (badUrlLength pass) := by
  intro a y z h
  induction a generalizing pass with
  | nil =>
    cases pass with
    | zero => obtain rfl | rfl := hb <;> simp [badUrlLength] at h
    | succ pass => simp [badUrlLength] at h
  | cons c a ih =>
    rw [List.cons_append, List.cons_append]
    rw [List.cons_append] at h
    cases pass with
    | succ pass =>
      simp only [badUrlLength, id_eq, List.length_cons, Nat.add_le_add_iff_right] at h ⊢
      rw [ih pass h]
    | zero =>
      have hhead : (a ++ b :: z).head? = (a ++ b :: y).head? := by cases a <;> rfl
      simp only [badUrlLength, id_eq, List.length_cons] at h ⊢
      rw [hhead]
      split_ifs at h ⊢ with hclose hescape
      · rfl
      · rw [ih _ (by simpa using h)]
      · rw [ih _ (by simpa using h)]

theorem settledWithin_urlEndLength (hb : IsStop b) : SettledWithin b (·.1) urlEndLength := by
  intro a y z h
  induction a with
  | nil => obtain rfl | rfl := hb <;> simp [urlEndLength, isSpace, isBreak] at h
  | cons c a ih =>
    rw [List.cons_append, List.cons_append]
    rw [List.cons_append] at h
    simp only [urlEndLength, List.length_cons] at h ⊢
    split_ifs at h ⊢ with hclose hspace
    · rfl
    · rw [ih (by simpa using h)]
    · rw [settledWithin_badUrlLength hb 0 a y z (by simpa using h)]

theorem settledWithin_urlLength (hb : IsStop b) (pass : Nat) :
    SettledWithin b (·.1) (urlLength pass) := by
  intro a y z h
  induction a generalizing pass with
  | nil =>
    cases pass with
    | zero => obtain rfl | rfl := hb <;> simp [urlLength, isSpace, isBreak, spoilsUrl] at h
    | succ pass => simp [urlLength] at h
  | cons c a ih =>
    rw [List.cons_append, List.cons_append]
    rw [List.cons_append] at h
    cases pass with
    | succ pass =>
      simp only [urlLength, List.length_cons, Nat.add_le_add_iff_right] at h ⊢
      rw [ih pass h]
    | zero =>
      simp only [urlLength, List.length_cons] at h ⊢
      rw [settled_startsBreak hb a z y, settled_escapeLength hb a z y]
      split_ifs at h ⊢ with hclose hspace hspoils hescape hbreak
      · rfl
      · rw [settledWithin_urlEndLength hb a y z (by simpa using h)]
      · rw [settledWithin_badUrlLength hb 0 a y z (by simpa using h)]
      · rw [settledWithin_badUrlLength hb 0 a y z (by simpa using h)]
      · rw [ih _ (by simpa using h)]
      · rw [ih _ (by simpa using h)]

theorem commentLength_cons {c : Char} {cs : List Char} (h : ¬(c = '*' ∧ cs.head? = some '/')) :
    commentLength (c :: cs) = commentLength cs + 1 := by
  rw [commentLength]
  rintro cs' rfl rfl
  exact h ⟨rfl, rfl⟩

theorem commentLength_append {body : List Char} (h : ¬['*', '/'] <:+: body) (z : List Char) :
    commentLength (body ++ '*' :: '/' :: z) = body.length + 2 := by
  induction body with
  | nil => rfl
  | cons c body ih =>
    have hbody : ¬['*', '/'] <:+: body := fun hin => h (hin.trans (List.suffix_cons c body).isInfix)
    rw [List.cons_append, commentLength_cons, ih hbody, List.length_cons, Nat.add_right_comm]
    · rintro ⟨rfl, hhead⟩
      cases body with
      | nil => exact absurd hhead (by simp)
      | cons d body =>
        obtain rfl : d = '/' := Option.some.inj hhead
        exact h ⟨[], body, rfl⟩

theorem settledWithin_commentLength (hb : IsStop b) : SettledWithin b id commentLength := by
  intro a y z h
  induction a with
  | nil => obtain rfl | rfl := hb <;> simp [commentLength] at h
  | cons c a ih =>
    have hhead : (a ++ b :: z).head? = (a ++ b :: y).head? := by cases a <;> rfl
    rw [List.cons_append, List.cons_append]
    rw [List.cons_append] at h
    by_cases hclose : c = '*' ∧ (a ++ b :: y).head? = some '/'
    · cases a with
      | nil => obtain rfl | rfl := hb <;> simp at hclose
      | cons d a =>
        obtain ⟨rfl, hd⟩ := hclose
        obtain rfl : d = '/' := Option.some.inj hd
        rfl
    · rw [commentLength_cons hclose] at h ⊢
      rw [commentLength_cons (by rw [hhead]; exact hclose), ih (by simpa using h)]

theorem settledWithin_unitLength (hb : IsStop b) : SettledWithin b id unitLength := by
  intro a y z h
  have hhead : (a ++ b :: z).head? = (a ++ b :: y).head? := by cases a <;> rfl
  simp only [unitLength, id_eq] at h ⊢
  rw [hhead, settled_atName hb a z y]
  split_ifs at h ⊢ with hpercent hname
  · rfl
  · exact settledWithin_nameLength hb 0 a y z h
  · rfl

/-- The text of a string that is cut off is settled where its length is. -/
theorem stringText_eq_of_stringLength_le (hb : IsStop b) {quote : Char} {pass : Nat}
    {a y z : List Char} (h : (stringLength quote pass (a ++ b :: y)).1 ≤ a.length) :
    stringText quote pass (a ++ b :: z) = stringText quote pass (a ++ b :: y) := by
  induction a generalizing pass with
  | nil =>
    cases pass with
    | zero =>
      by_cases hquote : b = quote
      · subst hquote
        simp [stringText]
      · obtain rfl | rfl := hb <;> simp [stringLength, hquote, isBreak] at h
    | succ pass => simp [stringLength] at h
  | cons c a ih =>
    rw [List.cons_append] at h
    cases pass with
    | succ pass =>
      simp only [stringLength, List.length_cons, Nat.add_le_add_iff_right] at h
      exact ih h
    | zero =>
      have hempty : ∀ w, (a ++ b :: w).isEmpty = false := by intro w; cases a <;> rfl
      simp only [stringLength, stringEscapeLength, List.length_cons] at h
      simp only [List.cons_append, stringText, hempty, Bool.false_or]
      rw [settled_startsBreak hb a z y, settled_breakLength hb a z y, settled_escapeLength hb a z y,
        settled_escapeChar hb a z y]
      by_cases hclose : (c == quote) = true
      · simp [hclose]
      · by_cases hbreak : isBreak c = true
        · simp [hbreak]
        · simp only [hclose, hbreak, Bool.false_eq_true, if_false, Bool.or_self] at h ⊢
          split_ifs at h ⊢ with hescape hline hnull
          all_goals rw [ih (by simpa using h)]

theorem fractionLength_le (hb : IsStop b) (a y : List Char) :
    fractionLength (a ++ b :: y) ≤ a.length := by
  have hdigit : b.isDigit = false := by obtain rfl | rfl := hb <;> rfl
  cases a with
  | nil => obtain rfl | rfl := hb <;> simp [fractionLength]
  | cons c a =>
    have hrun : digitRun (a ++ b :: y) ≤ a.length := length_takeWhile_le hdigit a y
    rw [List.cons_append, List.length_cons]
    unfold fractionLength
    split
    · rename_i cs heq
      obtain ⟨-, rfl⟩ := List.cons.inj heq
      split <;> omega
    · omega

theorem exponentLength_le (hb : IsStop b) (a y : List Char) :
    exponentLength (a ++ b :: y) ≤ a.length := by
  have hdigit : b.isDigit = false := by obtain rfl | rfl := hb <;> rfl
  match a with
  | [] => obtain rfl | rfl := hb <;> simp [exponentLength]
  | [e] => obtain rfl | rfl := hb <;> simp [exponentLength]
  | e :: c :: a =>
    have hrun : digitRun (c :: (a ++ b :: y)) ≤ a.length + 1 :=
      length_takeWhile_le hdigit (c :: a) y
    have hrun' : digitRun (a ++ b :: y) ≤ a.length := length_takeWhile_le hdigit a y
    simp only [List.cons_append, exponentLength, List.length_cons]
    split_ifs <;> omega

theorem settledWithin_numberLength (hb : IsStop b) : SettledWithin b id numberLength := by
  intro a y z h
  have hdigit : b.isDigit = false := by obtain rfl | rfl := hb <;> rfl
  have hwhole : digitRun (a ++ b :: y) ≤ a.length := length_takeWhile_le hdigit a y
  simp only [numberLength, id_eq] at h ⊢
  rw [settled_digitRun hb a z y]
  generalize digitRun (a ++ b :: y) = whole at *
  rw [List.drop_append_of_le_length hwhole] at h ⊢
  have hfraction := fractionLength_le hb (a.drop whole) y
  rw [List.drop_append_of_le_length hwhole, settled_fractionLength hb _ z y]
  generalize fractionLength (a.drop whole ++ b :: y) = fraction at *
  rw [List.drop_append_of_le_length hfraction] at h ⊢
  have hexponent := exponentLength_le hb ((a.drop whole).drop fraction) y
  rw [List.drop_append_of_le_length hfraction, settled_exponentLength hb _ z y]
  generalize exponentLength ((a.drop whole).drop fraction ++ b :: y) = exponent at *
  rw [List.drop_append_of_le_length hexponent] at h ⊢
  rw [List.drop_append_of_le_length hexponent]
  have hunit : unitLength (((a.drop whole).drop fraction).drop exponent ++ b :: y) ≤
      (((a.drop whole).drop fraction).drop exponent).length := by
    simp only [List.length_drop] at hfraction hexponent ⊢
    omega
  rw [settledWithin_unitLength hb _ y z hunit]

end GlyphTrim.Css
