import GlyphTrim.Proofs.Css.LastToken
import Mathlib.Data.List.Basic

/-!
# Lines of tokens

A carriage return and a line feed are one line break, and no token ends between them
(`whole_read`). So the line of a token is told by the text in front of it alone
(`breaks_of_tokensFrom`).
-/

namespace GlyphTrim.Css

open Text (isHexDigit)

/-- The first `n` characters of the text do not end between a carriage return and a line feed. -/
def Whole (n : Nat) (cs : List Char) : Prop :=
  (cs.take n).getLast? = some '\r' → (cs.drop n).head? ≠ some '\n'

variable {c : Char} {cs : List Char} {n : Nat}

/-! ## Scans one after the other -/

theorem whole_zero (cs : List Char) : Whole 0 cs := fun h => absurd h (by simp)

theorem whole_of_length_le (h : cs.length ≤ n) : Whole n cs := by
  intro _
  rw [List.drop_of_length_le h]
  simp

theorem Whole.add {d : Nat} (h : Whole d cs) (h' : Whole n (cs.drop d)) : Whole (d + n) cs := by
  intro hlast
  rw [List.take_add] at hlast
  rw [← List.drop_drop]
  by_cases hnil : (cs.drop d).take n = []
  · rw [hnil, List.append_nil] at hlast
    rcases List.take_eq_nil_iff.1 hnil with rfl | hdrop
    · exact h hlast
    · rw [hdrop]
      simp
  · rw [List.getLast?_append_of_ne_nil _ hnil] at hlast
    exact h' hlast

theorem whole_one (h : c ≠ '\r') (cs : List Char) : Whole 1 (c :: cs) := by
  intro hlast
  exact absurd (Option.some.inj hlast) h

theorem Whole.cons (h : Whole n cs) (hone : n = 0 → Whole 1 (c :: cs)) :
    Whole (n + 1) (c :: cs) := by
  match n, cs with
  | 0, cs => exact hone rfl
  | n + 1, [] => exact whole_of_length_le (by simp)
  | n + 1, d :: cs =>
    intro hlast
    refine h ?_
    rwa [List.take_succ_cons, List.take_succ_cons, List.getLast?_cons_cons,
      ← List.take_succ_cons] at hlast

theorem Whole.cons_of_ne (h : Whole n cs) (hc : c ≠ '\r') : Whole (n + 1) (c :: cs) :=
  h.cons fun _ => whole_one hc cs

theorem Whole.of_cons (h : Whole (n + 1) (c :: cs)) : Whole n cs := by
  intro hlast
  refine h ?_
  rw [List.take_succ_cons]
  cases htake : cs.take n with
  | nil => simp [htake] at hlast
  | cons d ds => rwa [List.getLast?_cons_cons, ← htake]

theorem Whole.sub_one (h : Whole n (c :: cs)) : Whole (n - 1) cs := by
  cases n with
  | zero => exact whole_zero cs
  | succ n => exact h.of_cons

/-- A run of characters ends with no carriage return, or goes on with a line feed. -/
theorem whole_takeWhile {p : Char → Bool} (hp : p '\r' = false ∨ p '\n' = true) (cs : List Char) :
    Whole (cs.takeWhile p).length cs := by
  induction cs with
  | nil => exact whole_zero _
  | cons c cs ih =>
    rw [List.takeWhile_cons]
    split
    · rename_i hc
      refine ih.cons fun hrest => ?_
      rcases hp with hp | hp
      · refine whole_one ?_ cs
        rintro rfl
        exact absurd hc (by simp [hp])
      · intro _ hhead
        obtain ⟨ds, rfl⟩ := List.head?_eq_some_iff.1 hhead
        simp [hp] at hrest
    · exact whole_zero _

/-- A scan that passes characters by a count, if it stays whole at the characters that it looks at
and passes no part of a line break. -/
theorem whole_of_pass {f : Nat → List Char → Nat} (hnil : ∀ pass, f pass [] = 0)
    (hpass : ∀ pass c cs, f (pass + 1) (c :: cs) = f pass cs + 1)
    (hstep : ∀ c cs, (∀ pass, Whole pass cs → Whole (f pass cs) cs) →
      Whole (f 0 (c :: cs)) (c :: cs))
    {pass : Nat} {cs : List Char} (h : Whole pass cs) : Whole (f pass cs) cs := by
  induction cs generalizing pass with
  | nil =>
    rw [hnil]
    exact whole_zero []
  | cons c cs ih =>
    cases pass with
    | zero => exact hstep c cs fun pass => ih
    | succ pass =>
      rw [hpass]
      refine (ih h.of_cons).cons fun hzero => ?_
      match pass, cs with
      | 0, cs => exact h
      | pass + 1, [] => exact whole_of_length_le (by simp)
      | pass + 1, d :: cs =>
        rw [hpass] at hzero
        exact absurd hzero (Nat.succ_ne_zero _)

/-! ## Names -/

theorem whole_breakLength (cs : List Char) : Whole (breakLength cs) cs := by
  unfold breakLength
  split
  · intro hlast
    exact absurd hlast (by simp)
  · rename_i c cs hnot
    intro hlast hhead
    obtain rfl : c = '\r' := Option.some.inj hlast
    obtain ⟨ds, rfl⟩ := List.head?_eq_some_iff.1 hhead
    exact hnot ds rfl rfl
  · exact whole_zero []

theorem whole_escapeDigits (cs : List Char) : Whole (escapeDigits cs).length cs := by
  intro hlast
  have hprefix : escapeDigits cs <+: cs := (List.takeWhile_prefix _).trans (List.take_prefix _ _)
  rw [← List.prefix_iff_eq_take.1 hprefix] at hlast
  have hhex := List.mem_takeWhile_imp (List.mem_of_getLast? hlast)
  exact absurd hhex (by decide)

theorem whole_escapeLength (h : startsBreak cs = false) : Whole (escapeLength cs) cs := by
  rw [escapeLength]
  split
  · cases cs with
    | nil => exact whole_zero []
    | cons c cs =>
      have hc : c ≠ '\r' := by
        rintro rfl
        exact absurd h (by simp [startsBreak, isBreak])
      have hmin : min 1 (c :: cs).length = 1 := by simp
      rw [hmin]
      exact whole_one hc cs
  · split
    · rename_i c rest hrest
      refine (whole_escapeDigits cs).add ?_
      rw [hrest]
      split
      · exact whole_breakLength _
      · exact whole_zero _
    · exact whole_escapeDigits cs

theorem whole_nameLength {pass : Nat} (h : Whole pass cs) : Whole (nameLength pass cs) cs := by
  refine whole_of_pass (fun _ => rfl) (fun _ _ _ => rfl) (fun c cs ih => ?_) h
  rw [nameLength]
  split_ifs with hname hescape
  · refine (ih 0 (whole_zero cs)).cons_of_ne ?_
    rintro rfl
    exact absurd hname (by decide)
  · rw [Bool.and_eq_true, beq_iff_eq, Bool.not_eq_true'] at hescape
    refine (ih _ (whole_escapeLength hescape.2)).cons_of_ne ?_
    rw [hescape.1]
    decide
  · exact whole_zero _

/-! ## Strings -/

theorem whole_stringEscapeLength (cs : List Char) : Whole (stringEscapeLength cs) cs := by
  rw [stringEscapeLength]
  split
  · exact whole_breakLength cs
  · rename_i h
    exact whole_escapeLength (by simpa using h)

theorem whole_stringLength {quote : Char} (hquote : quote ≠ '\r') {pass : Nat}
    (h : Whole pass cs) : Whole (stringLength quote pass cs).1 cs := by
  refine whole_of_pass (f := fun pass cs => (stringLength quote pass cs).1) (fun _ => rfl)
    (fun _ _ _ => rfl) (fun c cs ih => ?_) h
  simp only [stringLength]
  split_ifs with hclose hbreak hescape
  · rw [beq_iff_eq] at hclose
    exact whole_one (hclose ▸ hquote) cs
  · exact whole_zero _
  · rw [beq_iff_eq] at hescape
    exact (ih _ (whole_stringEscapeLength cs)).cons_of_ne (by rw [hescape]; decide)
  · refine (ih 0 (whole_zero cs)).cons_of_ne ?_
    rintro rfl
    exact hbreak rfl

/-! ## Addresses -/

theorem whole_badUrlLength {pass : Nat} (h : Whole pass cs) : Whole (badUrlLength pass cs) cs := by
  refine whole_of_pass (fun _ => rfl) (fun _ _ _ => rfl) (fun c cs ih => ?_) h
  rw [badUrlLength]
  split_ifs with hclose hescape
  · exact whole_zero _
  · obtain ⟨hc, hnext⟩ : c = '\\' ∧ (cs.head? = some ')' ∨ cs.head? = some '\\') := by
      simpa using hescape
    refine (ih 1 ?_).cons_of_ne (by rw [hc]; decide)
    rcases hnext with hnext | hnext <;>
      obtain ⟨ds, rfl⟩ := List.head?_eq_some_iff.1 hnext <;> exact whole_one (by decide) ds
  · -- a line feed behind a carriage return belongs to the address
    refine (ih 0 (whole_zero cs)).cons fun hzero => ?_
    intro _ hhead
    obtain ⟨ds, rfl⟩ := List.head?_eq_some_iff.1 hhead
    simp [badUrlLength] at hzero

theorem whole_urlEndLength (cs : List Char) : Whole (urlEndLength cs).1 cs := by
  induction cs with
  | nil => exact whole_zero []
  | cons c cs ih =>
    simp only [urlEndLength]
    split_ifs with hclose hspace
    · exact whole_zero _
    · refine ih.cons fun hzero => ?_
      intro _ hhead
      obtain ⟨ds, rfl⟩ := List.head?_eq_some_iff.1 hhead
      simp [urlEndLength, isSpace, isBreak] at hzero
    · refine (whole_badUrlLength (whole_zero cs)).cons_of_ne ?_
      rintro rfl
      exact hspace rfl

theorem whole_urlLength {pass : Nat} (h : Whole pass cs) : Whole (urlLength pass cs).1 cs := by
  refine whole_of_pass (f := fun pass cs => (urlLength pass cs).1) (fun _ => rfl)
    (fun _ _ _ => rfl) (fun c cs ih => ?_) h
  simp only [urlLength]
  split_ifs with hclose hspace hspoils hescape hbreak
  · exact whole_zero _
  · refine (whole_urlEndLength cs).cons fun hzero => ?_
    intro _ hhead
    obtain ⟨ds, rfl⟩ := List.head?_eq_some_iff.1 hhead
    simp [urlEndLength, isSpace, isBreak] at hzero
  all_goals
    have hc : c ≠ '\r' := by
      rintro rfl
      exact hspace rfl
  · exact (whole_badUrlLength (whole_zero cs)).cons_of_ne hc
  · exact (whole_badUrlLength (whole_zero cs)).cons_of_ne hc
  · exact (ih _ (whole_escapeLength (by simpa using hbreak))).cons_of_ne hc
  · exact (ih 0 (whole_zero cs)).cons_of_ne hc

/-- An address ends in front of its closing parenthesis, or where the text ends. -/
theorem head?_drop_badUrlLength (pass : Nat) (cs : List Char) :
    ∀ d ∈ (cs.drop (badUrlLength pass cs)).head?, d = ')' := by
  induction cs generalizing pass with
  | nil => exact fun d hd => absurd hd (by simp)
  | cons c cs ih =>
    cases pass with
    | succ pass => exact ih pass
    | zero =>
      rw [badUrlLength]
      split_ifs with hclose hescape
      · rintro d ⟨⟩
        exact beq_iff_eq.1 hclose
      · exact ih 1
      · exact ih 0

theorem head?_drop_urlEndLength (cs : List Char) :
    ∀ d ∈ (cs.drop (urlEndLength cs).1).head?, d = ')' := by
  induction cs with
  | nil => exact fun d hd => absurd hd (by simp)
  | cons c cs ih =>
    simp only [urlEndLength]
    split_ifs with hclose hspace
    · rintro d ⟨⟩
      exact beq_iff_eq.1 hclose
    · exact ih
    · exact head?_drop_badUrlLength 0 cs

theorem head?_drop_urlLength (pass : Nat) (cs : List Char) :
    ∀ d ∈ (cs.drop (urlLength pass cs).1).head?, d = ')' := by
  induction cs generalizing pass with
  | nil => exact fun d hd => absurd hd (by simp)
  | cons c cs ih =>
    cases pass with
    | succ pass => exact ih pass
    | zero =>
      simp only [urlLength]
      split_ifs with hclose hspace hspoils hescape hbreak
      · rintro d ⟨⟩
        exact beq_iff_eq.1 hclose
      · exact head?_drop_urlEndLength cs
      · exact head?_drop_badUrlLength 0 cs
      · exact head?_drop_badUrlLength 0 cs
      · exact ih _
      · exact ih 0

theorem whole_addressToken {d : Nat} (h : Whole d cs) :
    Whole (addressToken d (cs.drop d)).2 cs := by
  have hurl : Whole (d + (urlLength 0 (cs.drop d)).1) cs := h.add (whole_urlLength (whole_zero _))
  refine hurl.add ?_
  rw [← List.drop_drop]
  have hclose := head?_drop_urlLength 0 (cs.drop d)
  cases hrest : (cs.drop d).drop (urlLength 0 (cs.drop d)).1 with
  | nil => exact whole_zero []
  | cons e es =>
    obtain rfl : e = ')' := hclose e (by rw [hrest]; rfl)
    exact whole_one (by decide) es

theorem whole_readUrl {x : Kind × Nat} (h : readUrl cs = some x) : Whole x.2 cs := by
  rw [readUrl_eq cs] at h
  · obtain rfl := Option.some.inj h
    exact whole_addressToken (whole_takeWhile (.inr rfl) cs)
  · rintro q hq hquote
    obtain ⟨rest, hrest⟩ := List.head?_eq_some_iff.1 hq
    rw [readUrl_of_quote hrest hquote] at h
    exact absurd h (by simp)

theorem whole_readName (c : Char) (cs : List Char) : Whole (readName c cs).2 cs := by
  have hname : Whole (nameLength 0 (c :: cs) - 1) cs :=
    (whole_nameLength (whole_zero (c :: cs))).sub_one
  by_cases hround : (cs.drop (nameLength 0 (c :: cs) - 1)).head? = some '('
  · obtain ⟨rest, hrest⟩ := List.head?_eq_some_iff.1 hround
    have hopen : Whole (nameLength 0 (c :: cs) - 1 + 1) cs :=
      hname.add (by rw [hrest]; exact whole_one (by decide) rest)
    rw [readName_of_round hrest, roundToken]
    split
    · split
      · rename_i kind more hurl
        refine hopen.add ?_
        rw [← List.drop_drop, hrest]
        exact whole_readUrl hurl
      · exact hopen
    · exact hopen
  · rw [readName_of_not_round]
    · exact hname
    · rintro d hd rfl
      exact hround hd

/-! ## Numbers and comments -/

theorem whole_digitRun (cs : List Char) : Whole (digitRun cs) cs :=
  whole_takeWhile (.inl rfl) cs

theorem whole_fractionLength (cs : List Char) : Whole (fractionLength cs) cs := by
  unfold fractionLength
  split
  · split
    · exact (whole_digitRun _).cons_of_ne (by decide)
    · exact whole_zero _
  · exact whole_zero _

theorem whole_exponentLength (cs : List Char) : Whole (exponentLength cs) cs := by
  unfold exponentLength
  split
  · rename_i e cs
    split_ifs with he
    · have he' : e ≠ '\r' := by
        rintro rfl
        exact absurd he (by decide)
      split
      · rename_i c ds
        split_ifs with hdigit hsign
        · exact (whole_digitRun _).cons_of_ne he'
        · refine ((whole_digitRun ds).cons_of_ne ?_).cons_of_ne he'
          rintro rfl
          exact absurd hsign (by simp)
        · exact whole_zero _
      · exact whole_zero _
    · exact whole_zero _
  · exact whole_zero _

theorem whole_unitLength (cs : List Char) : Whole (unitLength cs) cs := by
  rw [unitLength]
  split_ifs with hpercent hname
  · obtain ⟨ds, rfl⟩ := List.head?_eq_some_iff.1 (beq_iff_eq.1 hpercent)
    exact whole_one (by decide) ds
  · exact whole_nameLength (whole_zero cs)
  · exact whole_zero cs

theorem whole_numberLength (cs : List Char) : Whole (numberLength cs) cs := by
  simp only [numberLength]
  refine (((whole_digitRun cs).add (whole_fractionLength _)).add ?_).add ?_
  · rw [← List.drop_drop]
    exact whole_exponentLength _
  · rw [← List.drop_drop, ← List.drop_drop]
    exact whole_unitLength _

theorem eq_nil_of_commentLength (h : commentLength cs = 0) : cs = [] := by
  rw [commentLength.eq_def] at h
  split at h
  · rfl
  · exact absurd h (by simp)
  · exact absurd h (by simp)

theorem whole_commentLength (cs : List Char) : Whole (commentLength cs) cs := by
  induction cs using commentLength.induct with
  | case1 => exact whole_zero []
  | case2 cs => exact (whole_one (by decide) cs).cons_of_ne (by decide)
  | case3 c cs h ih =>
    rw [commentLength]
    · refine ih.cons fun hzero => ?_
      rw [eq_nil_of_commentLength hzero]
      exact whole_of_length_le (by simp)
    · exact h

/-! ## Tokens -/

/-- What is read behind a character stays whole. -/
def KeepsWhole (f : List Char → Kind × Nat) : Prop := ∀ cs, Whole (f cs).2 cs

section

variable {f g : List Char → Kind × Nat}

theorem KeepsWhole.ite_const {p : Prop} [Decidable p] (hf : p → KeepsWhole f)
    (hg : ¬p → KeepsWhole g) : KeepsWhole fun cs => if p then f cs else g cs := by
  intro cs
  dsimp only
  split_ifs with hp
  · exact hf hp cs
  · exact hg hp cs

theorem KeepsWhole.ite {p : List Char → Bool} (hf : ∀ cs, p cs = true → Whole (f cs).2 cs)
    (hg : KeepsWhole g) : KeepsWhole fun cs => if p cs = true then f cs else g cs := by
  intro cs
  dsimp only
  split_ifs with hp
  · exact hf cs hp
  · exact hg cs

theorem keepsWhole_const (k : Kind) : KeepsWhole fun _ => (k, 0) := fun cs => whole_zero cs

/-- What is read if the text goes on in some way, and nothing else. -/
theorem keepsWhole_ite_zero {p : List Char → Bool} {length : List Char → Nat}
    (h : ∀ cs, Whole (length cs) cs) (k : Kind) :
    KeepsWhole fun cs => (k, if p cs = true then length cs else 0) := by
  intro cs
  dsimp only
  split_ifs
  · exact h cs
  · exact whole_zero cs

/-- A mark that is read whole. -/
theorem whole_of_take_beq {w : List Char} (hw : w.getLast? ≠ some '\r')
    (h : (cs.take w.length == w) = true) : Whole w.length cs := by
  intro hlast
  rw [beq_iff_eq.1 h] at hlast
  exact absurd hlast hw

end

/-- What follows a hash. -/
theorem keepsWhole_hash : KeepsWhole fun cs =>
    match cs with
    | d :: _ =>
      if atName cs || d.isDigit || d == '-' then (.other, nameLength 0 cs) else (.other, 0)
    | [] => (.other, 0) := by
  intro cs
  cases cs with
  | nil => exact whole_zero []
  | cons d ds =>
    dsimp only
    split_ifs
    · exact whole_nameLength (whole_zero _)
    · exact whole_zero _

/-- **No token ends between a carriage return and a line feed.** -/
theorem whole_read (c : Char) (cs : List Char) : Whole ((read c cs).2 + 1) (c :: cs) := by
  by_cases hspace : isSpace c = true
  · have hread := whole_takeWhile (p := isSpace) (.inr rfl) (c :: cs)
    rw [List.takeWhile_cons, if_pos hspace] at hread
    unfold read
    rw [if_pos hspace]
    exact hread
  have hc : c ≠ '\r' := by
    rintro rfl
    exact hspace rfl
  have hname : ∀ cs, Whole (nameLength 0 cs) cs := fun cs => whole_nameLength (whole_zero cs)
  have hnumber : ∀ cs, Whole (numberLength (c :: cs) - 1) cs := fun cs =>
    (whole_numberLength (c :: cs)).sub_one
  have hcomment : ∀ cs, Whole (commentLength (cs.drop 1) + 1) cs := by
    intro cs
    cases cs with
    | nil => exact whole_of_length_le (by simp)
    | cons d ds =>
      refine (whole_commentLength ds).cons fun hzero => ?_
      rw [eq_nil_of_commentLength hzero]
      exact whole_of_length_le (by simp)
  have hreadName : KeepsWhole fun cs =>
      if atName (c :: cs) = true then readName c cs else (Kind.other, 0) :=
    .ite (fun cs _ => whole_readName c cs) (keepsWhole_const _)
  refine Whole.cons_of_ne ?_ hc
  revert cs
  show KeepsWhole (read c)
  refine .ite_const (fun hspace' => absurd hspace' hspace) fun _ => ?_
  refine .ite_const (fun hquote => ?_) fun _ => ?_
  · intro cs
    rw [readString_eq]
    exact whole_stringLength hc (whole_zero cs)
  iterate 7 refine .ite_const (fun _ => keepsWhole_const _) fun _ => ?_
  refine .ite (fun cs _ => hcomment cs) ?_
  refine .ite_const (fun _ => keepsWhole_hash) fun _ => ?_
  refine .ite_const (fun _ => keepsWhole_ite_zero hname _) fun _ => ?_
  refine .ite_const (fun _ => hnumber) fun _ => ?_
  refine .ite_const (fun _ => keepsWhole_ite_zero hnumber _) fun _ => ?_
  refine .ite_const (fun _ => keepsWhole_ite_zero whole_numberLength _) fun _ => ?_
  refine .ite (fun cs h => ?_) ?_
  · rw [Bool.and_eq_true] at h
    exact whole_of_take_beq (w := ['!', '-', '-']) (by simp) h.2
  refine .ite_const (fun _ => ?_) fun _ => hreadName
  refine .ite (fun cs _ => whole_numberLength cs) ?_
  exact .ite (fun cs h => whole_of_take_beq (w := ['-', '>']) (by simp) h) hreadName

/-! ## Lines -/

theorem lineBreaks_cons (h : ¬(c = '\r' ∧ cs.head? = some '\n')) :
    lineBreaks (c :: cs) = (if isBreak c then 1 else 0) + lineBreaks cs := by
  rw [lineBreaks]
  rintro cs' rfl rfl
  exact h ⟨rfl, rfl⟩

/-- Line breaks are counted in parts that do not tear a line break apart. -/
theorem lineBreaks_append {a b : List Char}
    (h : a.getLast? = some '\r' → b.head? ≠ some '\n') :
    lineBreaks (a ++ b) = lineBreaks a + lineBreaks b := by
  have htail : ∀ {c : Char} {a : List Char}, ((c :: a).getLast? = some '\r' → b.head? ≠ some '\n') →
      a.getLast? = some '\r' → b.head? ≠ some '\n' := by
    intro c a h hlast
    cases a with
    | nil => exact absurd hlast (by simp)
    | cons d a => exact h (by rwa [List.getLast?_cons_cons])
  induction a using lineBreaks.induct with
  | case1 => simp [lineBreaks]
  | case2 a ih =>
    rw [List.cons_append, List.cons_append, lineBreaks, lineBreaks, ih (htail (htail h))]
    omega
  | case3 c a hnot ih =>
    have hleft : ¬(c = '\r' ∧ a.head? = some '\n') := by
      rintro ⟨rfl, hhead⟩
      obtain ⟨ds, rfl⟩ := List.head?_eq_some_iff.1 hhead
      exact hnot ds rfl rfl
    have hright : ¬(c = '\r' ∧ (a ++ b).head? = some '\n') := by
      rintro ⟨rfl, hhead⟩
      cases a with
      | nil => exact h rfl hhead
      | cons d a => exact hleft ⟨rfl, hhead⟩
    rw [List.cons_append, lineBreaks_cons hright, lineBreaks_cons hleft, ih (htail h),
      Nat.add_assoc]

/-- **The line of a token** is told by the text in front of it. -/
theorem breaks_of_tokensFrom {l : Location} {cs : List Char} {ts us : List Token} {t : Token}
    (h : tokensFrom l cs = ts ++ t :: us) :
    t.location.breaks = l.breaks + lineBreaks (sourceText ts) := by
  induction ts generalizing l cs with
  | nil =>
    cases cs with
    | nil => exact absurd h (by simp [tokensFrom])
    | cons c cs =>
      obtain ⟨rfl, -⟩ := tokensFrom_eq_cons_iff.1 h
      rfl
  | cons u ts ih =>
    cases cs with
    | nil => exact absurd h (by simp [tokensFrom])
    | cons c cs =>
      obtain ⟨rfl, hrest⟩ := tokensFrom_eq_cons_iff.1 h
      rw [ih hrest.symm, breaks_advance, sourceText_cons, lineBreaks_append, Nat.add_assoc]
      have htext : sourceText (ts ++ t :: us) = cs.drop (read c cs).2 :=
        (congrArg sourceText hrest).trans (sourceText_tokensFrom _ _)
      intro hlast hhead
      obtain ⟨ds, hds⟩ := List.head?_eq_some_iff.1 hhead
      refine whole_read c cs hlast ?_
      rw [List.drop_succ_cons, ← htext, sourceText_append, hds]
      rfl

end GlyphTrim.Css
