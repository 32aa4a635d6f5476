import GlyphTrim.Proofs.Css.Scan
import GlyphTrim.Text.Blank

/-!
# Scans at the end of a text

Where a statement is cut out of a stylesheet, white space behind it and the brace of the block
around it are missing. One such character more at the end of a text changes no scan (`Ends`),
unless the scan goes to the end of the text both with and without it.
-/

namespace GlyphTrim.Css

open Text (isBlank isHexDigit hexNumber)

/-- White space and the closing brace. -/
def IsTrailing (b : Char) : Prop := isBlank b = true ∨ b = '\x7d'

instance (b : Char) : Decidable (IsTrailing b) :=
  inferInstanceAs (Decidable (isBlank b = true ∨ b = '\x7d'))

/-- One more character `b` at the end of the text does not change the scan, or `P` says how the two
scans go to the end. -/
def Ends {α : Type} (b : Char) (length : α → Nat) (P : List Char → α → α → Prop)
    (f : List Char → α) (cs : List Char) : Prop :=
  f (cs ++ [b]) = f cs ∧ length (f cs) ≤ cs.length ∨ P cs (f cs) (f (cs ++ [b]))

/-- Both scans go over the end of their text. -/
def Over (cs : List Char) (n m : Nat) : Prop := cs.length ≤ n ∧ cs.length + 1 ≤ m

/-- Both scans leave next to nothing: of the text perhaps a dash, and of the longer one perhaps the
line break with a backslash in front of it. -/
def Spends (b : Char) (cs : List Char) (n m : Nat) : Prop :=
  (cs.drop n = [] ∨ cs.drop n = ['-']) ∧
    ((cs ++ [b]).drop m = [] ∨ isBreak b = true ∧
      ((cs ++ [b]).drop m = [b] ∨ (cs ++ [b]).drop m = ['\\', b]))

/-- The same for scans that may find a fault. The longer text has no fault less. -/
def OverFaulty (cs : List Char) (x y : Nat × Bool) : Prop :=
  Over cs x.1 y.1 ∧ (x.2 = true → y.2 = true)

/-- The scan of the text finds no fault. -/
def SpendsFaultless (b : Char) (cs : List Char) (x y : Nat × Bool) : Prop :=
  Spends b cs x.1 y.1 ∧ x.2 = false

variable {α : Type} {b : Char} {length : α → Nat} {P : List Char → α → α → Prop}
  {f g : List Char → α} {c : Char} {cs : List Char}

theorem over_length (b : Char) (cs : List Char) : Over cs cs.length (cs ++ [b]).length :=
  ⟨Nat.le_refl _, by rw [List.length_append]; exact Nat.le_refl _⟩

theorem Over.cons {n m : Nat} (h : Over cs n m) (c : Char) : Over (c :: cs) (n + 1) (m + 1) :=
  ⟨Nat.succ_le_succ h.1, Nat.succ_le_succ h.2⟩

theorem Over.spends {n m : Nat} (h : Over cs n m) (b : Char) : Spends b cs n m :=
  ⟨.inl (List.drop_eq_nil_of_le h.1),
    .inl (List.drop_eq_nil_of_le (by rw [List.length_append]; exact h.2))⟩

theorem Spends.cons {n m : Nat} (h : Spends b cs n m) (c : Char) :
    Spends b (c :: cs) (n + 1) (m + 1) := h

theorem Ends.mono {Q : List Char → α → α → Prop} (h : Ends b length P f cs)
    (hPQ : ∀ x y, P cs x y → Q cs x y) : Ends b length Q f cs :=
  h.imp_right (hPQ _ _)

/-- A scan that goes over the first character and then does the same. -/
theorem Ends.cons {succ : α → α} (h : Ends b length P g cs)
    (hf : f (c :: cs) = succ (g cs)) (hf' : f (c :: (cs ++ [b])) = succ (g (cs ++ [b])))
    (hlength : ∀ x, length (succ x) = length x + 1)
    (hP : ∀ x y, P cs x y → P (c :: cs) (succ x) (succ y)) : Ends b length P f (c :: cs) := by
  rcases h with ⟨heq, hle⟩ | h
  · refine .inl ⟨?_, ?_⟩
    · rw [List.cons_append, hf, hf', heq]
    · rw [hf, hlength, List.length_cons]
      omega
  · refine .inr ?_
    rw [List.cons_append, hf, hf']
    exact hP _ _ h

theorem Ends.succ {P : List Char → Nat → Nat → Prop} {f g : List Char → Nat}
    (h : Ends b id P g cs) (hf : f (c :: cs) = g cs + 1)
    (hf' : f (c :: (cs ++ [b])) = g (cs ++ [b]) + 1)
    (hP : ∀ n m, P cs n m → P (c :: cs) (n + 1) (m + 1)) : Ends b id P f (c :: cs) :=
  h.cons hf hf' (fun _ => rfl) hP

theorem Ends.congr (h : Ends b length P g cs) (hf : f cs = g cs)
    (hf' : f (cs ++ [b]) = g (cs ++ [b])) : Ends b length P f cs := by
  rwa [Ends, hf, hf']

/-- A scan that passes as many characters as another one finds, and where these are all of them goes
over the whole text. -/
theorem Ends.pass {k : List Char → Nat} {f : Nat → List Char → α} {whole : List Char → α}
    (hk : Ends b id Over k cs) (hf : ∀ n, Ends b length P (f n) cs)
    (hwhole : ∀ n ds, ds.length ≤ n → f n ds = whole ds)
    (hP : P cs (whole cs) (whole (cs ++ [b]))) : Ends b length P (fun ds => f (k ds) ds) cs := by
  rcases hk with ⟨heq, -⟩ | ⟨hn, hm⟩
  · exact (hf (k cs)).congr rfl (congrArg (f · (cs ++ [b])) heq)
  · have hcs : f (k cs) cs = whole cs := hwhole _ _ hn
    have hcs' : f (k (cs ++ [b])) (cs ++ [b]) = whole (cs ++ [b]) :=
      hwhole _ _ (by rw [List.length_append]; exact hm)
    refine .inr ?_
    dsimp only
    rw [hcs, hcs']
    exact hP

theorem ends_of_eq (h : f (cs ++ [b]) = f cs) (hle : length (f cs) ≤ cs.length) :
    Ends b length P f cs := .inl ⟨h, hle⟩

theorem Ends.ite {p : List Char → Bool} (hp : p (cs ++ [b]) = p cs)
    (hf : p cs = true → Ends b length P f cs) (hg : p cs = false → Ends b length P g cs) :
    Ends b length P (fun cs => if p cs = true then f cs else g cs) cs := by
  cases h : p cs with
  | true => exact (hf h).congr (by simp [h]) (by simp [hp, h])
  | false => exact (hg h).congr (by simp [h]) (by simp [hp, h])

theorem Ends.ite_const {p : Prop} [Decidable p] (hf : p → Ends b length P f cs)
    (hg : ¬p → Ends b length P g cs) :
    Ends b length P (fun cs => if p then f cs else g cs) cs := by
  by_cases h : p
  · exact (hf h).congr (if_pos h) (if_pos h)
  · exact (hg h).congr (if_neg h) (if_neg h)

/-! ## What white space and braces are not -/

theorem IsTrailing.ne (hb : IsTrailing b) (hc : ¬IsTrailing c) : b ≠ c := by
  rintro rfl
  exact hc hb

theorem IsTrailing.toNat_cases (hb : IsTrailing b) :
    b.toNat ≤ 32 ∨ b.toNat = 125 ∨ 128 ≤ b.toNat := by
  rcases hb with hb | rfl
  · simp only [isBlank, Bool.or_eq_true, Bool.and_eq_true, decide_eq_true_eq, beq_iff_eq] at hb
    omega
  · exact .inr (.inl rfl)

theorem IsTrailing.isDigit_eq_false (hb : IsTrailing b) : b.isDigit = false := by
  rw [Bool.eq_false_iff]
  intro hdigit
  have hnat : 48 ≤ b.toNat ∧ b.toNat ≤ 57 := by
    simpa [Char.isDigit, UInt32.le_iff_toNat_le] using hdigit
  have := hb.toNat_cases
  omega

theorem IsTrailing.isHexDigit_eq_false (hb : IsTrailing b) : isHexDigit b = false := by
  have hcases := hb.toNat_cases
  have hlower : ¬('a' ≤ b ∧ b ≤ 'f') := by
    rintro ⟨h, h'⟩
    have hnat : 97 ≤ b.toNat := h
    have hnat' : b.toNat ≤ 102 := h'
    omega
  have hupper : ¬('A' ≤ b ∧ b ≤ 'F') := by
    rintro ⟨h, h'⟩
    have hnat : 65 ≤ b.toNat := h
    have hnat' : b.toNat ≤ 70 := h'
    omega
  simp [isHexDigit, Text.hexDigit?, hb.isDigit_eq_false, hlower, hupper]

theorem head?_concat_beq {d : Char} (hd : b ≠ d) (cs : List Char) :
    ((cs ++ [b]).head? == some d) = (cs.head? == some d) := by
  cases cs <;> simp [hd]

theorem mem_head?_of_concat {d : Char} (h : d ∈ (cs ++ [b]).head?) (hd : b ≠ d) : d ∈ cs.head? := by
  cases cs with
  | nil => exact absurd (Option.some.inj h) hd
  | cons c cs => exact h

/-! ## Escapes -/

theorem Over.drop {d n m : Nat} (h : Over (cs.drop d) n m) (hd : d ≤ cs.length) :
    Over cs (d + n) (d + m) := by
  obtain ⟨hn, hm⟩ := h
  rw [List.length_drop] at hn hm
  exact ⟨by omega, by omega⟩

theorem Spends.drop {d n m : Nat} (h : Spends b (cs.drop d) n m) (hd : d ≤ cs.length) :
    Spends b cs (d + n) (d + m) := by
  obtain ⟨hn, hm⟩ := h
  rw [← List.drop_append_of_le_length hd, List.drop_drop] at hm
  rw [List.drop_drop] at hn
  exact ⟨hn, hm⟩

/-- A scan that goes over a part of the text first. -/
theorem Ends.drop {P : List Char → Nat → Nat → Prop} {f g : List Char → Nat} {d : Nat}
    (h : Ends b id P g (cs.drop d)) (hd : d ≤ cs.length) (hf : f cs = d + g (cs.drop d))
    (hf' : f (cs ++ [b]) = d + g (cs.drop d ++ [b]))
    (hP : ∀ x y, P (cs.drop d) x y → P cs (d + x) (d + y)) : Ends b id P f cs := by
  rcases h with ⟨heq, hle⟩ | h
  · refine .inl ⟨by rw [hf, hf', heq], ?_⟩
    rw [id_eq, List.length_drop] at hle
    rw [hf, id_eq]
    omega
  · refine .inr ?_
    rw [hf, hf']
    exact hP _ _ h

theorem startsBreak_concat (hne : cs ≠ []) : startsBreak (cs ++ [b]) = startsBreak cs := by
  obtain ⟨c, cs, rfl⟩ := List.exists_cons_of_ne_nil hne
  rfl

theorem escapeDigits_concat (hb : IsTrailing b) (cs : List Char) :
    escapeDigits (cs ++ [b]) = escapeDigits cs := by
  have htake : ∀ n, ((cs ++ [b]).take n).takeWhile isHexDigit =
      (cs.take n).takeWhile isHexDigit := by
    induction cs with
    | nil => intro n; cases n <;> simp [hb.isHexDigit_eq_false]
    | cons c cs ih => intro n; cases n <;> simp [List.takeWhile_cons, ih]
  exact htake 6

theorem length_escapeDigits_le_length (cs : List Char) :
    (escapeDigits cs).length ≤ cs.length :=
  ((List.takeWhile_sublist _).trans (List.take_sublist _ _)).length_le

theorem escapeChar_concat (hb : IsTrailing b) (hne : cs ≠ []) :
    escapeChar (cs ++ [b]) = escapeChar cs := by
  obtain ⟨c, cs, rfl⟩ := List.exists_cons_of_ne_nil hne
  unfold escapeChar
  rw [escapeDigits_concat hb]
  rfl

theorem breakLength_singleton (c : Char) : breakLength [c] = 1 := by
  simp [breakLength]

theorem breakLength_cons_cons {d : Char} (h : ¬(c = '\r' ∧ d = '\n')) (cs : List Char) :
    breakLength (c :: d :: cs) = 1 := by
  unfold breakLength
  split
  · rename_i heq
    obtain ⟨rfl, hrest⟩ := List.cons.inj heq
    exact absurd ⟨rfl, (List.cons.inj hrest).1⟩ h
  · rfl
  · rename_i heq
    exact absurd heq (by simp)

theorem ends_breakLength (b : Char) (cs : List Char) : Ends b id Over breakLength cs := by
  match cs with
  | [] =>
    refine .inr ⟨Nat.le_refl _, ?_⟩
    rw [List.nil_append, breakLength_singleton]
    exact Nat.le_refl _
  | [c] =>
    by_cases hline : c = '\r' ∧ b = '\n'
    · obtain ⟨rfl, rfl⟩ := hline
      exact .inr ⟨Nat.le_refl _, Nat.le_refl _⟩
    · have hone : breakLength ([c] ++ [b]) = 1 := breakLength_cons_cons hline []
      rw [← breakLength_singleton c] at hone
      exact ends_of_eq hone (by rw [breakLength_singleton]; exact Nat.le_refl _)
  | c :: d :: cs =>
    by_cases hline : c = '\r' ∧ d = '\n'
    · obtain ⟨rfl, rfl⟩ := hline
      exact ends_of_eq rfl (by simp [breakLength])
    · have hone := breakLength_cons_cons hline
      exact ends_of_eq (by rw [List.cons_append, List.cons_append, hone, hone])
        (by rw [hone]; simp)

/-- What an escape takes behind its digits. -/
def escapeEndLength : List Char → Nat
  | c :: cs => if isSpace c then breakLength (c :: cs) else 0
  | [] => 0

theorem escapeLength_of_digits (h : escapeDigits cs ≠ []) : escapeLength cs =
    (escapeDigits cs).length + escapeEndLength (cs.drop (escapeDigits cs).length) := by
  unfold escapeLength
  rw [if_neg (by simpa using h)]
  cases cs.drop (escapeDigits cs).length <;> rfl

theorem escapeLength_of_no_digits (h : escapeDigits cs = []) :
    escapeLength cs = min 1 cs.length := by
  unfold escapeLength
  rw [h]
  rfl

theorem ends_escapeEndLength (b : Char) (cs : List Char) : Ends b id Over escapeEndLength cs := by
  cases cs with
  | nil =>
    by_cases hspace : isSpace b = true
    · exact .inr ⟨Nat.le_refl _, by simp [escapeEndLength, hspace, breakLength]⟩
    · exact ends_of_eq (by simp [escapeEndLength, hspace]) (Nat.le_refl _)
  | cons c cs =>
    by_cases hspace : isSpace c = true
    · exact (ends_breakLength b (c :: cs)).congr (if_pos hspace) (if_pos hspace)
    · exact ends_of_eq (by simp [escapeEndLength, hspace]) (by simp [escapeEndLength, hspace])

theorem ends_escapeLength (hb : IsTrailing b) (cs : List Char) :
    Ends b id Over escapeLength cs := by
  have hdigits := escapeDigits_concat hb cs
  by_cases hnone : escapeDigits cs = []
  · have hlength : escapeLength (cs ++ [b]) = 1 := by
      rw [escapeLength_of_no_digits (hdigits.trans hnone)]
      simp
    cases cs with
    | nil => exact .inr ⟨Nat.zero_le _, by rw [hlength]; exact Nat.le_refl _⟩
    | cons c cs =>
      have hone : escapeLength (c :: cs) = 1 := by
        rw [escapeLength_of_no_digits hnone]
        simp
      exact ends_of_eq (hlength.trans hone.symm) (by rw [hone]; simp)
  · have hle := length_escapeDigits_le_length cs
    refine (ends_escapeEndLength b _).drop hle (escapeLength_of_digits hnone) ?_ ?_
    · rw [escapeLength_of_digits (by rwa [hdigits]), hdigits, List.drop_append_of_le_length hle]
    · exact fun _ _ h => h.drop hle

theorem IsTrailing.escapeLength_singleton (hb : IsTrailing b) : escapeLength [b] = 1 := by
  have hdigits : escapeDigits [b] = [] := escapeDigits_concat hb []
  rw [escapeLength_of_no_digits hdigits]
  rfl

theorem ends_stringEscapeLength (hb : IsTrailing b) (cs : List Char) :
    Ends b id Over stringEscapeLength cs := by
  by_cases hnil : cs = []
  · have hone : stringEscapeLength [b] = 1 := by
      rw [stringEscapeLength, hb.escapeLength_singleton, breakLength_singleton]
      exact ite_self 1
    rw [hnil]
    exact .inr ⟨Nat.zero_le _, by rw [List.nil_append, hone]; exact Nat.le_refl _⟩
  · exact (Ends.ite (startsBreak_concat hnil) (fun _ => ends_breakLength b cs)
      fun _ => ends_escapeLength hb cs).congr rfl rfl

/-! ## Names -/

theorem nameLength_of_length_le {pass : Nat} (h : cs.length ≤ pass) :
    nameLength pass cs = cs.length := by
  induction cs generalizing pass with
  | nil => rfl
  | cons c cs ih =>
    cases pass with
    | zero => exact absurd h (by simp)
    | succ pass => rw [nameLength, ih (Nat.le_of_succ_le_succ h), List.length_cons]

theorem nameLength_cons_of_continues (h : continuesName c = true) (cs : List Char) :
    nameLength 0 (c :: cs) = nameLength 0 cs + 1 := by
  rw [nameLength, if_pos h]

theorem nameLength_backslash (cs : List Char) :
    nameLength 0 ('\\' :: cs) =
      if startsBreak cs then 0 else nameLength (escapeLength cs) cs + 1 := by
  have hname : continuesName '\\' = false := by decide
  rw [nameLength]
  cases h : startsBreak cs <;> simp [hname]

theorem nameLength_cons_of_not (h : continuesName c = false) (hc : c ≠ '\\') (cs : List Char) :
    nameLength 0 (c :: cs) = 0 := by
  simp [nameLength, h, hc]

/-- A backslash goes on with a name at the end of a text, but not in front of a line break. -/
theorem ends_nameLength_backslash (hb : IsTrailing b) :
    Ends b id (Spends b) (nameLength 0) ['\\'] := by
  have hone : nameLength 0 ['\\'] = 1 := rfl
  refine .inr ?_
  rw [hone, List.singleton_append, nameLength_backslash]
  by_cases hbreak : isBreak b = true
  · rw [startsBreak, if_pos hbreak]
    exact ⟨.inl rfl, .inr ⟨hbreak, .inr rfl⟩⟩
  · rw [startsBreak, if_neg hbreak, hb.escapeLength_singleton]
    exact ⟨.inl rfl, .inl rfl⟩

theorem ends_nameLength (hb : IsTrailing b) (pass : Nat) (cs : List Char) :
    Ends b id (Spends b) (nameLength pass) cs := by
  induction cs generalizing pass with
  | nil =>
    cases pass with
    | succ pass => exact .inr (Over.spends ⟨Nat.zero_le _, Nat.succ_le_succ (Nat.zero_le _)⟩ b)
    | zero =>
      by_cases hname : continuesName b = true
      · refine .inr (Over.spends ⟨Nat.zero_le _, ?_⟩ b)
        rw [List.nil_append, nameLength_cons_of_continues hname]
        exact Nat.succ_le_succ (Nat.zero_le _)
      · refine ends_of_eq ?_ (Nat.zero_le _)
        have hslash : b ≠ '\\' := hb.ne (by decide)
        rw [List.nil_append, nameLength_cons_of_not (by simpa using hname) hslash]
        rfl
  | cons c cs ih =>
    have hshift : ∀ x y, Spends b cs x y → Spends b (c :: cs) (x + 1) (y + 1) :=
      fun _ _ h => h.cons c
    cases pass with
    | succ pass => exact (ih pass).succ rfl rfl hshift
    | zero =>
      by_cases hname : continuesName c = true
      · exact (ih 0).succ (nameLength_cons_of_continues hname _)
          (nameLength_cons_of_continues hname _) hshift
      by_cases hc : c = '\\'
      · subst hc
        by_cases hnil : cs = []
        · rw [hnil]
          exact ends_nameLength_backslash hb
        by_cases hbreak : startsBreak cs = true
        · have hbreak' := (startsBreak_concat (b := b) hnil).trans hbreak
          refine ends_of_eq ?_ ?_
          · rw [List.cons_append, nameLength_backslash, nameLength_backslash, hbreak, hbreak']
            rfl
          · rw [nameLength_backslash, if_pos hbreak]
            exact Nat.zero_le _
        · have hbreak' : ¬startsBreak (cs ++ [b]) = true := by rwa [startsBreak_concat hnil]
          have hescape := (ends_escapeLength hb cs).pass ih (fun _ _ => nameLength_of_length_le)
            ((over_length b cs).spends b)
          refine hescape.succ ?_ ?_ hshift
          · rw [nameLength_backslash, if_neg hbreak]
          · rw [nameLength_backslash, if_neg hbreak']
      · have hzero := nameLength_cons_of_not (by simpa using hname) hc
        refine ends_of_eq ?_ ?_
        · rw [List.cons_append, hzero, hzero]
        · rw [hzero]
          exact Nat.zero_le _

/-- The text of a name that ends in front of the end. -/
theorem nameText_concat (hb : IsTrailing b) {pass : Nat} (h : nameLength pass cs < cs.length) :
    nameText pass (cs ++ [b]) = nameText pass cs := by
  induction cs generalizing pass with
  | nil => exact absurd h (by simp)
  | cons c cs ih =>
    cases pass with
    | succ pass =>
      rw [nameLength, List.length_cons] at h
      exact ih (by omega)
    | zero =>
      rw [List.cons_append, nameText, nameText]
      by_cases hname : continuesName c = true
      · rw [nameLength_cons_of_continues hname, List.length_cons] at h
        rw [if_pos hname, if_pos hname, ih (by omega)]
      by_cases hc : c = '\\'
      · subst hc
        rw [nameLength_backslash, List.length_cons] at h
        have hne : cs ≠ [] := by
          rintro rfl
          exact absurd h (by decide)
        rw [startsBreak_concat hne, escapeChar_concat hb hne]
        by_cases hbreak : startsBreak cs = true
        · simp [hname, hbreak]
        · rw [if_neg hbreak] at h
          have hescape : escapeLength (cs ++ [b]) = escapeLength cs := by
            rcases ends_escapeLength hb cs with ⟨heq, -⟩ | ⟨hle, -⟩
            · exact heq
            · rw [nameLength_of_length_le hle] at h
              omega
          have htext : nameText (escapeLength cs) (cs ++ [b]) = nameText (escapeLength cs) cs :=
            ih (by omega)
          rw [hescape, htext, if_neg hname, if_neg hname]
      · simp [hname, hc]

/-! ## Strings -/

/-- The scan after one more character. -/
def past (x : Nat × Bool) : Nat × Bool := (x.1 + 1, x.2)

section

variable {quote : Char}

theorem stringLength_of_length_le {pass : Nat} (h : cs.length ≤ pass) :
    stringLength quote pass cs = (cs.length, false) := by
  induction cs generalizing pass with
  | nil => rfl
  | cons c cs ih =>
    cases pass with
    | zero => exact absurd h (by simp)
    | succ pass => exact congrArg past (ih (Nat.le_of_succ_le_succ h))

theorem stringLength_backslash (hquote : quote ≠ '\\') (cs : List Char) :
    stringLength quote 0 ('\\' :: cs) =
      past (stringLength quote (stringEscapeLength cs) cs) := by
  have hne : ('\\' == quote) = false := beq_false_of_ne hquote.symm
  have hbreak : isBreak '\\' = false := by decide
  simp [stringLength, hne, hbreak, past]

theorem stringLength_cons (hquote : c ≠ quote) (hbreak : isBreak c = false) (hc : c ≠ '\\')
    (cs : List Char) : stringLength quote 0 (c :: cs) = past (stringLength quote 0 cs) := by
  simp [stringLength, hquote, hbreak, hc, past]

theorem ends_stringLength (hb : IsTrailing b) (hquote : ¬IsTrailing quote) (hslash : quote ≠ '\\')
    (pass : Nat) (cs : List Char) :
    Ends b (·.1) (SpendsFaultless b) (stringLength quote pass) cs := by
  have hbq : b ≠ quote := hb.ne hquote
  have hbs : b ≠ '\\' := hb.ne (by decide)
  induction cs generalizing pass with
  | nil =>
    refine .inr ⟨⟨.inl (List.drop_nil), ?_⟩, by cases pass <;> rfl⟩
    cases pass with
    | succ pass => exact .inl rfl
    | zero =>
      rw [List.nil_append]
      by_cases hbreak : isBreak b = true
      · exact .inr ⟨hbreak, .inl (by simp [stringLength, hbq, hbreak])⟩
      · rw [stringLength_cons hbq (by simpa using hbreak) hbs]
        exact .inl rfl
  | cons c cs ih =>
    have hshift : ∀ x y, SpendsFaultless b cs x y → SpendsFaultless b (c :: cs) (past x) (past y) :=
      fun _ _ h => ⟨h.1.cons c, h.2⟩
    cases pass with
    | succ pass => exact (ih pass).cons rfl rfl (fun _ => rfl) hshift
    | zero =>
      by_cases hclose : c = quote
      · refine ends_of_eq ?_ ?_ <;> simp [stringLength, hclose]
      by_cases hbreak : isBreak c = true
      · refine ends_of_eq ?_ ?_ <;> simp [stringLength, hclose, hbreak]
      by_cases hc : c = '\\'
      · subst hc
        have hescape := (ends_stringEscapeLength hb cs).pass ih
          (fun _ _ => stringLength_of_length_le) ⟨(over_length b cs).spends b, rfl⟩
        exact hescape.cons (stringLength_backslash hslash _) (stringLength_backslash hslash _)
          (fun _ => rfl) hshift
      · have hcons := stringLength_cons hclose (by simpa using hbreak) hc
        exact (ih 0).cons (hcons _) (hcons _) (fun _ => rfl) hshift

/-- The text of a string that a line break cuts off. -/
theorem stringText_concat (hb : IsTrailing b) (hslash : quote ≠ '\\') {pass : Nat}
    (h : (stringLength quote pass cs).2 = true) :
    stringText quote pass (cs ++ [b]) = stringText quote pass cs := by
  induction cs generalizing pass with
  | nil => cases pass <;> exact absurd h (by simp [stringLength])
  | cons c cs ih =>
    cases pass with
    | succ pass => exact ih h
    | zero =>
      rw [List.cons_append, stringText, stringText]
      by_cases hstop : c = quote ∨ isBreak c = true
      · rcases hstop with hstop | hstop <;> simp [hstop]
      · obtain ⟨hclose, hbreak⟩ := not_or.1 hstop
        by_cases hc : c = '\\'
        · subst hc
          rw [stringLength_backslash hslash] at h
          have hne : cs ≠ [] := by
            rintro rfl
            exact absurd h (by simp [past, stringLength])
          have hescape : stringEscapeLength (cs ++ [b]) = stringEscapeLength cs := by
            rcases ends_stringEscapeLength hb cs with ⟨heq, -⟩ | ⟨hle, -⟩
            · exact heq
            · rw [past, stringLength_of_length_le hle] at h
              exact absurd h (by simp)
          have hempty : cs.isEmpty = false := by simpa using hne
          have hempty' : (cs ++ [b]).isEmpty = false := by simp
          rw [stringEscapeLength, stringEscapeLength, startsBreak_concat hne] at hescape
          rw [stringEscapeLength] at h
          rw [startsBreak_concat hne, escapeChar_concat hb hne, hempty, hempty']
          cases hline : startsBreak cs with
          | true =>
            rw [hline, if_pos rfl, if_pos rfl] at hescape
            rw [hline, if_pos rfl] at h
            simp [hescape, ih h]
          | false =>
            rw [hline, if_neg (by simp), if_neg (by simp)] at hescape
            rw [hline, if_neg (by simp)] at h
            simp [hescape, ih h]
        · rw [stringLength_cons hclose (by simpa using hbreak) hc] at h
          simp [hclose, hbreak, hc, ih h]

end

/-! ## Addresses -/

theorem ends_badUrlLength (hb : IsTrailing b) (pass : Nat) (cs : List Char) :
    Ends b id Over (badUrlLength pass) cs := by
  have hclose : b ≠ ')' := hb.ne (by decide)
  have hslash : b ≠ '\\' := hb.ne (by decide)
  induction cs generalizing pass with
  | nil =>
    refine .inr ⟨Nat.zero_le _, ?_⟩
    cases pass <;> simp [badUrlLength, hclose]
  | cons c cs ih =>
    have hshift : ∀ x y, Over cs x y → Over (c :: cs) (x + 1) (y + 1) := fun _ _ h => h.cons c
    cases pass with
    | succ pass => exact (ih pass).succ rfl rfl hshift
    | zero =>
      by_cases hend : c = ')'
      · refine ends_of_eq ?_ ?_ <;> simp [badUrlLength, hend]
      by_cases hescape : (c == '\\' && (cs.head? == some ')' || cs.head? == some '\\')) = true
      · refine (ih 1).succ ?_ ?_ hshift
        · rw [badUrlLength, if_neg (by simpa using hend), if_pos hescape]
        · rw [badUrlLength, if_neg (by simpa using hend), head?_concat_beq hclose,
            head?_concat_beq hslash,
            if_pos hescape]
      · refine (ih 0).succ ?_ ?_ hshift
        · rw [badUrlLength, if_neg (by simpa using hend), if_neg hescape]
        · rw [badUrlLength, if_neg (by simpa using hend), head?_concat_beq hclose,
            head?_concat_beq hslash,
            if_neg hescape]

/-- The spoilt rest of an address. -/
theorem ends_spoilt (hb : IsTrailing b) (cs : List Char) :
    Ends b (·.1) OverFaulty (fun ds => (badUrlLength 0 ds, true)) cs := by
  rcases ends_badUrlLength hb 0 cs with ⟨heq, hle⟩ | h
  · exact ends_of_eq (by simp [heq]) hle
  · exact .inr ⟨h, id⟩

theorem OverFaulty.cons {x y : Nat × Bool} (h : OverFaulty cs x y) (c : Char) :
    OverFaulty (c :: cs) (past x) (past y) :=
  ⟨h.1.cons c, h.2⟩

theorem ends_urlEndLength (hb : IsTrailing b) (cs : List Char) :
    Ends b (·.1) OverFaulty urlEndLength cs := by
  have hclose : b ≠ ')' := hb.ne (by decide)
  induction cs with
  | nil =>
    refine .inr ⟨⟨Nat.zero_le _, ?_⟩, by simp [urlEndLength]⟩
    by_cases hspace : isSpace b = true <;>
      simp [urlEndLength, hclose, hspace, badUrlLength]
  | cons c cs ih =>
    by_cases hend : c = ')'
    · refine ends_of_eq ?_ ?_ <;> simp [urlEndLength, hend]
    by_cases hspace : isSpace c = true
    · refine ih.cons ?_ ?_ (fun _ => rfl) fun _ _ h => h.cons c <;>
        simp [urlEndLength, hend, hspace, past]
    · refine (ends_spoilt hb cs).cons ?_ ?_ (fun _ => rfl) fun _ _ h => h.cons c <;>
        simp [urlEndLength, hend, hspace, past]

theorem urlLength_of_length_le {pass : Nat} (h : cs.length ≤ pass) :
    urlLength pass cs = (cs.length, false) := by
  induction cs generalizing pass with
  | nil => rfl
  | cons c cs ih =>
    cases pass with
    | zero => exact absurd h (by simp)
    | succ pass => exact congrArg past (ih (Nat.le_of_succ_le_succ h))

/-- What an address takes after its first character. -/
def urlRest (c : Char) (cs : List Char) : Nat × Bool :=
  if isSpace c then urlEndLength cs
  else if spoilsUrl c then (badUrlLength 0 cs, true)
  else if c == '\\' then
    if startsBreak cs then (badUrlLength 0 cs, true) else urlLength (escapeLength cs) cs
  else urlLength 0 cs

theorem urlLength_cons (hc : c ≠ ')') (cs : List Char) :
    urlLength 0 (c :: cs) = past (urlRest c cs) := by
  simp only [urlLength, urlRest, beq_iff_eq, hc, if_false]
  split_ifs <;> rfl

theorem ends_urlLength (hb : IsTrailing b) (pass : Nat) (cs : List Char) :
    Ends b (·.1) OverFaulty (urlLength pass) cs := by
  have hclose : b ≠ ')' := hb.ne (by decide)
  have hslash : b ≠ '\\' := hb.ne (by decide)
  induction cs generalizing pass with
  | nil =>
    refine .inr ⟨⟨Nat.zero_le _, ?_⟩, by cases pass <;> simp [urlLength]⟩
    cases pass with
    | succ pass => exact Nat.le_refl _
    | zero =>
      rw [List.nil_append, urlLength_cons hclose]
      exact Nat.succ_le_succ (Nat.zero_le _)
  | cons c cs ih =>
    cases pass with
    | succ pass => exact (ih pass).cons rfl rfl (fun _ => rfl) fun _ _ h => h.cons c
    | zero =>
      by_cases hend : c = ')'
      · refine ends_of_eq ?_ ?_ <;> simp [urlLength, hend]
      have hrest : Ends b (·.1) OverFaulty (urlRest c) cs := by
        refine .ite_const (fun _ => ends_urlEndLength hb cs) fun _ => ?_
        refine .ite_const (fun _ => ends_spoilt hb cs) fun _ => ?_
        refine .ite_const (fun _ => ?_) fun _ => ih 0
        by_cases hnil : cs = []
        · rw [hnil]
          refine .inr ⟨⟨Nat.zero_le _, ?_⟩, by simp [startsBreak, urlLength]⟩
          by_cases hbreak : isBreak b = true <;>
            simp [startsBreak, hbreak, badUrlLength, hclose, hb.escapeLength_singleton, urlLength]
        · refine .ite (startsBreak_concat hnil) (fun _ => ends_spoilt hb cs) fun _ => ?_
          exact (ends_escapeLength hb cs).pass ih (fun _ _ => urlLength_of_length_le)
            ⟨over_length b cs, id⟩
      exact hrest.cons (urlLength_cons hend _) (urlLength_cons hend _) (fun _ => rfl)
        fun _ _ h => h.cons c

/-! ## Comments and numbers -/

theorem ends_commentLength (hb : IsTrailing b) (cs : List Char) :
    Ends b id Over commentLength cs := by
  have hslash : b ≠ '/' := hb.ne (by decide)
  induction cs with
  | nil => exact .inr ⟨Nat.le_refl _, by simp [commentLength]⟩
  | cons c cs ih =>
    have hhead : (cs ++ [b]).head? = some '/' ↔ cs.head? = some '/' := by
      cases cs <;> simp [hslash]
    by_cases hclose : c = '*' ∧ cs.head? = some '/'
    · obtain ⟨rfl, hcs⟩ := hclose
      obtain ⟨d, cs, rfl⟩ : ∃ d ds, cs = d :: ds :=
        List.exists_cons_of_ne_nil (by rintro rfl; exact absurd hcs (by simp))
      obtain rfl : d = '/' := Option.some.inj hcs
      exact ends_of_eq rfl (by simp [commentLength])
    · refine ih.succ (commentLength_cons hclose) (commentLength_cons ?_) fun _ _ h => h.cons c
      rwa [hhead]

section

variable (hb : IsTrailing b)

include hb

theorem digitRun_concat (cs : List Char) : digitRun (cs ++ [b]) = digitRun cs := by
  have htake : (cs ++ [b]).takeWhile Char.isDigit = cs.takeWhile Char.isDigit := by
    induction cs with
    | nil => simp [hb.isDigit_eq_false]
    | cons c cs ih => rw [List.cons_append, List.takeWhile_cons, List.takeWhile_cons, ih]
  rw [digitRun, digitRun, htake]

theorem startsDigit_concat (cs : List Char) : startsDigit (cs ++ [b]) = startsDigit cs := by
  cases cs with
  | nil => exact hb.isDigit_eq_false
  | cons c cs => rfl

theorem startsNumber_concat (cs : List Char) : startsNumber (cs ++ [b]) = startsNumber cs := by
  have hpoint : b ≠ '.' := hb.ne (by decide)
  cases cs with
  | nil => simp [startsNumber, startsDigit, hpoint, hb.isDigit_eq_false]
  | cons c cs =>
    by_cases hc : c = '.'
    · subst hc
      exact startsDigit_concat hb cs
    · simp [startsNumber, startsDigit, hc]

theorem fractionLength_concat (cs : List Char) :
    fractionLength (cs ++ [b]) = fractionLength cs := by
  have hpoint : b ≠ '.' := hb.ne (by decide)
  cases cs with
  | nil => simp [fractionLength, hpoint]
  | cons c cs =>
    by_cases hc : c = '.'
    · subst hc
      simp only [List.cons_append, fractionLength, startsDigit_concat hb, digitRun_concat hb]
    · simp [fractionLength, hc]

theorem exponentLength_concat (cs : List Char) :
    exponentLength (cs ++ [b]) = exponentLength cs := by
  have hplus : b ≠ '+' := hb.ne (by decide)
  have hminus : b ≠ '-' := hb.ne (by decide)
  have he : b ≠ 'e' := hb.ne (by decide)
  have hE : b ≠ 'E' := hb.ne (by decide)
  match cs with
  | [] => simp [exponentLength, he, hE]
  | [e] => simp [exponentLength, hplus, hminus, hb.isDigit_eq_false]
  | e :: c :: cs =>
    have hrun := digitRun_concat hb (c :: cs)
    rw [List.cons_append] at hrun
    simp only [List.cons_append, exponentLength, hrun, startsDigit_concat hb, digitRun_concat hb]

end

theorem digitRun_le_length (cs : List Char) : digitRun cs ≤ cs.length :=
  (List.takeWhile_sublist _).length_le

theorem fractionLength_le_length (cs : List Char) : fractionLength cs ≤ cs.length := by
  unfold fractionLength
  split
  · rename_i cs
    have := digitRun_le_length cs
    rw [List.length_cons]
    split <;> omega
  · exact Nat.zero_le _

theorem exponentLength_le_length (cs : List Char) : exponentLength cs ≤ cs.length := by
  match cs with
  | [] => exact Nat.le_refl _
  | [e] => simp [exponentLength]
  | e :: c :: cs =>
    have hrun := digitRun_le_length (c :: cs)
    have hrun' := digitRun_le_length cs
    rw [List.length_cons] at hrun
    simp only [exponentLength, List.length_cons]
    split_ifs <;> omega

theorem IsTrailing.continuesName_eq (hb : IsTrailing b) : continuesName b = beginsName b := by
  have hminus : b ≠ '-' := hb.ne (by decide)
  simp [continuesName, hb.isDigit_eq_false, hminus]

/-- What stands behind the end begins a name only if it goes on with one. -/
theorem IsTrailing.atName_eq (hb : IsTrailing b) :
    atName [b] = beginsName b ∧ atName ['-', b] = beginsName b := by
  have hminus : (b == '-') = false := beq_false_of_ne (hb.ne (by decide))
  have hslash : (b == '\\') = false := beq_false_of_ne (hb.ne (by decide))
  constructor
  · unfold atName
    split <;> simp_all
  · simp [atName, hminus, hslash]

theorem atName_concat (hnil : cs ≠ []) (hdash : cs ≠ ['-']) (hslash : cs ≠ ['\\']) :
    atName (cs ++ [b]) = atName cs := by
  match cs with
  | [] => exact absurd rfl hnil
  | [c] =>
    have hc : c ≠ '-' := fun h => hdash (by rw [h])
    have hc' : c ≠ '\\' := fun h => hslash (by rw [h])
    simp [atName, hc]
  | c :: d :: cs =>
    by_cases hc : c = '-'
    · subst hc
      rfl
    · by_cases hc' : c = '\\'
      · subst hc'
        rfl
      · simp [atName, hc]

/-- A name that perhaps begins here. -/
theorem ends_nameLength_of_atName (hb : IsTrailing b) (cs : List Char) :
    Ends b id (Spends b) (fun ds => if atName ds = true then nameLength 0 ds else 0) cs := by
  obtain ⟨hone, htwo⟩ := hb.atName_eq
  have hcontinues : ∀ ds, beginsName b = true → nameLength 0 (b :: ds) = nameLength 0 ds + 1 :=
    fun ds h => nameLength_cons_of_continues (by rw [hb.continuesName_eq, h]) ds
  by_cases hnil : cs = []
  · subst hnil
    by_cases hbegins : beginsName b = true
    · refine .inr (Over.spends ⟨Nat.le_refl _, ?_⟩ b)
      simp only [List.nil_append, hone, hbegins, if_true, hcontinues]
      exact Nat.le_refl _
    · refine ends_of_eq ?_ (Nat.le_refl _)
      simp only [List.nil_append, hone, hbegins]
      rfl
  by_cases hdash : cs = ['-']
  · subst hdash
    have hfront : nameLength 0 ['-', b] = nameLength 0 [b] + 1 :=
      nameLength_cons_of_continues (by decide) [b]
    by_cases hbegins : beginsName b = true
    · refine .inr ⟨.inr (by decide), .inl ?_⟩
      simp only [List.singleton_append, htwo, hbegins, if_true, hfront, hcontinues]
      rfl
    · refine ends_of_eq ?_ (by decide)
      simp only [List.singleton_append, htwo, hbegins]
      rfl
  by_cases hslash : cs = ['\\']
  · subst hslash
    by_cases hbreak : isBreak b = true
    · refine .inr ⟨.inl rfl, .inr ⟨hbreak, .inr ?_⟩⟩
      simp [atName, startsBreak, hbreak]
    · have hbreak' : atName (['\\'] ++ [b]) = atName ['\\'] := by
        simp [atName, startsBreak, hbreak]
      exact .ite hbreak' (fun _ => ends_nameLength hb 0 _) fun _ => ends_of_eq rfl (Nat.zero_le _)
  · exact .ite (atName_concat hnil hdash hslash) (fun _ => ends_nameLength hb 0 _)
      fun _ => ends_of_eq rfl (Nat.zero_le _)

theorem ends_unitLength (hb : IsTrailing b) (cs : List Char) :
    Ends b id (Spends b) unitLength cs := by
  have hpercent : b ≠ '%' := hb.ne (by decide)
  refine .ite (head?_concat_beq hpercent cs) (fun h => ends_of_eq rfl ?_)
    fun _ => ends_nameLength_of_atName hb cs
  cases cs with
  | nil => exact absurd h (by simp)
  | cons c cs => simp

theorem ends_numberLength (hb : IsTrailing b) (cs : List Char) :
    Ends b id (Spends b) numberLength cs := by
  have hwhole := digitRun_le_length cs
  have hfraction := fractionLength_le_length (cs.drop (digitRun cs))
  have hexponent := exponentLength_le_length
    ((cs.drop (digitRun cs)).drop (fractionLength (cs.drop (digitRun cs))))
  simp only [List.length_drop] at hfraction hexponent
  have hunit := ends_unitLength hb (cs.drop (digitRun cs +
    fractionLength (cs.drop (digitRun cs)) + exponentLength
      ((cs.drop (digitRun cs)).drop (fractionLength (cs.drop (digitRun cs))))))
  refine hunit.drop (by omega) ?_ ?_ fun _ _ h => h.drop (by omega)
  · simp only [numberLength, List.drop_drop]
  · simp only [numberLength, digitRun_concat hb]
    rw [List.drop_append_of_le_length hwhole, fractionLength_concat hb,
      List.drop_append_of_le_length (by rw [List.length_drop]; omega), exponentLength_concat hb,
      List.drop_append_of_le_length (by simp only [List.length_drop]; omega)]
    simp only [List.drop_drop]

end GlyphTrim.Css
