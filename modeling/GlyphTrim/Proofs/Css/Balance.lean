import GlyphTrim.Proofs.Css.Reading

/-!
# Balanced stylesheets

A stylesheet is balanced if it closes all its brackets. This is said of the tokens alone, by a
stack of open brackets; statements that are read from balanced tokens are all whole
(`Reads.of_balanced`).
-/

namespace GlyphTrim.Css

/-- The brackets open behind a token. A closing bracket that does not match the innermost open one
closes nothing. -/
def stepBracket (open_ : List Bracket) (t : Token) : List Bracket :=
  match t.kind with
  | .opening b => b :: open_
  | .closing b => if open_.head? = some b then open_.tail else open_
  | _ => open_

/-- The brackets open behind tokens. -/
def openAfter (open_ : List Bracket) (ts : List Token) : List Bracket := ts.foldl stepBracket open_

/-- All brackets are closed. -/
def Balanced (ts : List Token) : Prop := openAfter [] ts = []

instance (ts : List Token) : Decidable (Balanced ts) :=
  inferInstanceAs (Decidable (openAfter [] ts = []))

theorem openAfter_append (o : List Bracket) (ts us : List Token) :
    openAfter o (ts ++ us) = openAfter (openAfter o ts) us :=
  List.foldl_append

theorem openAfter_cons (o : List Bracket) (t : Token) (ts : List Token) :
    openAfter o (t :: ts) = openAfter (stepBracket o t) ts :=
  rfl

theorem stepBracket_of_passToken {t : Token} {o o' : List Bracket} (h : passToken t o = some o')
    (outer : List Bracket) : stepBracket (o ++ outer) t = o' ++ outer := by
  cases o with
  | nil =>
    cases hk : t.kind with
    | opening b => cases b <;> simp [passToken, hk] at h <;> subst h <;> simp [stepBracket, hk]
    | _ => simp [passToken, hk] at h <;> subst h <;> simp [stepBracket, hk]
  | cons b bs =>
    cases hk : t.kind with
    | closing c =>
      by_cases hc : b = c
      · simp only [passToken, hk, if_pos hc, Option.some.injEq] at h
        subst h
        simp [stepBracket, hk, hc]
      · simp only [passToken, hk, if_neg hc, Option.some.injEq] at h
        subst h
        simp [stepBracket, hk, hc]
    | _ =>
      simp only [passToken, hk, Option.some.injEq] at h
      subst h
      simp [stepBracket, hk]

/-- A prelude opens and closes brackets on top of those around it. -/
theorem openAfter_of_passes {ts : List Token} {o o' : List Bracket} (h : passes o ts = some o')
    (outer : List Bracket) : openAfter (o ++ outer) ts = o' ++ outer := by
  induction ts generalizing o with
  | nil =>
    obtain rfl := Option.some.inj h
    rfl
  | cons t ts ih =>
    obtain ⟨o₁, h₁, h⟩ := passes_cons_eq_some_iff.1 h
    rw [openAfter_cons, stepBracket_of_passToken h₁]
    exact ih h

theorem openAfter_of_passes_nil {ts : List Token} {o : List Bracket} (h : passes [] ts = some o)
    (outer : List Bracket) : openAfter outer ts = o ++ outer :=
  openAfter_of_passes h outer

theorem stepBracket_brace {t : Token} (h : t.kind = .opening .curly) (o : List Bracket) :
    stepBracket o t = .curly :: o := by
  rw [stepBracket, h]

theorem stepBracket_close {t : Token} (h : t.kind = .closing .curly) (o : List Bracket) :
    stepBracket (.curly :: o) t = o := by
  simp [stepBracket, h]

theorem stepBracket_trivia {t : Token} (h : t.isTrivia = true) (o : List Bracket) :
    stepBracket o t = o := by
  cases hk : t.kind <;> simp_all [Token.isTrivia, stepBracket]

theorem stepBracket_semicolon {t : Token} (h : t.kind = .semicolon) (o : List Bracket) :
    stepBracket o t = o := by
  rw [stepBracket, h]

/-- A block with its prelude closes all that it opens. -/
theorem openAfter_block {p body ts : List Token} {brace close : Token}
    (hpass : passes [] p = some []) (hbrace : brace.kind = .opening .curly)
    (hbody : ∀ outer, openAfter outer body = outer) (hclose : close.kind = .closing .curly)
    (outer : List Bracket) :
    openAfter outer (p ++ brace :: (body ++ close :: ts)) = openAfter outer ts := by
  rw [openAfter_append, openAfter_of_passes_nil hpass, List.nil_append, openAfter_cons,
    stepBracket_brace hbrace, openAfter_append, hbody, openAfter_cons, stepBracket_close hclose]

theorem openAfter_semicolon {p ts : List Token} {s : Token} (hpass : passes [] p = some [])
    (hs : s.kind = .semicolon) (outer : List Bracket) :
    openAfter outer (p ++ s :: ts) = openAfter outer ts := by
  rw [openAfter_append, openAfter_of_passes_nil hpass, List.nil_append, openAfter_cons,
    stepBracket_semicolon hs]

/-- Whole statements close all that they open. -/
theorem Reads.openAfter_eq {ts : List Token} {items : Items} (h : Reads false ts items)
    (outer : List Bracket) : openAfter outer ts = outer := by
  generalize hcut : false = cut at h
  induction h generalizing outer with
  | done => rfl
  | trivia ht h ih =>
    rw [openAfter_cons, stepBracket_trivia ht]
    exact ih outer hcut
  | last hne hstart hpass ho =>
    obtain rfl := ho.resolve_right (by simp [← hcut])
    exact openAfter_of_passes_nil hpass outer
  | semicolon hstart hpass hs h ih =>
    rw [openAfter_semicolon hpass hs]
    exact ih outer hcut
  | block hstart hpass hbrace hbody hclose h ihbody ih =>
    rw [openAfter_block hpass hbrace (fun o => ihbody o rfl) hclose]
    exact ih outer hcut
  | cutBlock hstart hpass hbrace hbody ih => exact absurd hcut (by simp)

/-- The brackets around statements stay open; if no others do, the statements are whole. -/
theorem Reads.suffix_openAfter {cut : Bool} {ts : List Token} {items : Items}
    (h : Reads cut ts items) (outer : List Bracket) :
    outer <:+ openAfter outer ts ∧ (openAfter outer ts = outer → Reads false ts items) := by
  induction h generalizing outer with
  | done => exact ⟨List.suffix_rfl, fun _ => .done⟩
  | trivia ht h ih =>
    rw [openAfter_cons, stepBracket_trivia ht]
    exact ⟨(ih outer).1, fun heq => .trivia ht ((ih outer).2 heq)⟩
  | @last cut p o hne hstart hpass ho =>
    rw [openAfter_of_passes_nil hpass]
    refine ⟨List.suffix_append o outer, fun heq => ?_⟩
    have ho' : o = [] := by simpa using heq
    exact .last hne hstart hpass (.inl ho')
  | semicolon hstart hpass hs h ih =>
    rw [openAfter_semicolon hpass hs]
    exact ⟨(ih outer).1, fun heq => .semicolon hstart hpass hs ((ih outer).2 heq)⟩
  | block hstart hpass hbrace hbody hclose h ihbody ih =>
    rw [openAfter_block hpass hbrace hbody.openAfter_eq hclose]
    exact ⟨(ih outer).1, fun heq => .block hstart hpass hbrace hbody hclose ((ih outer).2 heq)⟩
  | @cutBlock p body brace inner hstart hpass hbrace hbody ih =>
    rw [openAfter_append, openAfter_of_passes_nil hpass, List.nil_append, openAfter_cons,
      stepBracket_brace hbrace]
    -- the brace stays open
    have hopen := (ih (.curly :: outer)).1
    refine ⟨(List.suffix_cons _ _).trans hopen, fun heq => ?_⟩
    have hlen := hopen.length_le
    rw [heq, List.length_cons] at hlen
    omega

/-- **Balanced tokens** read whole statements only. -/
theorem Reads.of_balanced {cut : Bool} {ts : List Token} {items : Items} (h : Reads cut ts items)
    (hbalanced : Balanced ts) : Reads false ts items :=
  (h.suffix_openAfter []).2 hbalanced

end GlyphTrim.Css
