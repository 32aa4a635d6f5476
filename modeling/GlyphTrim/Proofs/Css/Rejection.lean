import GlyphTrim.Proofs.Css.Balance

/-!
# Stylesheets that are rejected

A text is no stylesheet exactly if a token at fault is *exposed*: it is a string or an address that
is spoilt, or a closing bracket that closes nothing, and it stands in no bracket but the braces of
blocks (`exists_parse_eq_error_iff`). The error names the first of these tokens
(`parse_eq_error_iff`), with its place, or with the place behind the bracket that opens the group
right in front of it (`groupAfter`). What stands in a round or a square bracket is never at fault.

An error of the parser has a derivation in `Rejects` (`rejects_of_parseItems`), which goes the way
of `Reads` as far as the token that cannot be read.
-/

namespace GlyphTrim.Css

/-- Kinds of tokens that cannot stand where the brackets `open_` are open. -/
def Kind.IsFault (open_ : List Bracket) : Kind → Prop
  | .badString _ | .badUrl _ => True
  | .closing b => b ∉ open_
  | _ => False

instance (open_ : List Bracket) : (k : Kind) → Decidable (k.IsFault open_)
  | .badString _ | .badUrl _ => inferInstanceAs (Decidable True)
  | .closing b => inferInstanceAs (Decidable (b ∉ open_))
  | .space | .comment | .string | .semicolon | .opening _ | .other =>
    inferInstanceAs (Decidable False)

/-- A token is at fault, and nothing but blocks is open around it. `outer` are the brackets open in
front of the tokens. -/
def Exposed (outer : List Bracket) (ts : List Token) : Prop :=
  ∃ p t us, ts = p ++ t :: us ∧ t.kind.IsFault (openAfter outer p) ∧
    ∀ b ∈ openAfter outer p, b = .curly

theorem not_exposed_nil (outer : List Bracket) : ¬Exposed outer [] := by
  rintro ⟨p, t, us, h, -⟩
  exact absurd h (by simp)

theorem exposed_append_iff {outer : List Bracket} {ts us : List Token} :
    Exposed outer (ts ++ us) ↔ Exposed outer ts ∨ Exposed (openAfter outer ts) us := by
  constructor
  · rintro ⟨p, t, vs, h, hfault, hcurly⟩
    rcases List.append_eq_append_iff.1 h with ⟨c, rfl, rfl⟩ | ⟨c, rfl, hc⟩
    · rw [openAfter_append] at hfault hcurly
      exact .inr ⟨c, t, vs, rfl, hfault, hcurly⟩
    · cases c with
      | nil =>
        obtain rfl : us = t :: vs := hc.symm
        refine .inr ⟨[], t, vs, rfl, ?_⟩
        rw [List.append_nil] at *
        exact ⟨hfault, hcurly⟩
      | cons u c =>
        obtain ⟨rfl, rfl⟩ := List.cons.inj hc
        exact .inl ⟨p, t, c, rfl, hfault, hcurly⟩
  · rintro (⟨p, t, vs, rfl, h⟩ | ⟨p, t, vs, rfl, h⟩)
    · exact ⟨p, t, vs ++ us, by simp, h⟩
    · refine ⟨ts ++ p, t, vs, by simp, ?_⟩
      rw [openAfter_append]
      exact h

theorem exposed_cons_iff {outer : List Bracket} {t : Token} {ts : List Token} :
    Exposed outer (t :: ts) ↔
      t.kind.IsFault outer ∧ (∀ b ∈ outer, b = .curly) ∨ Exposed (stepBracket outer t) ts := by
  have happend := @exposed_append_iff outer [t] ts
  rw [List.singleton_append] at happend
  rw [happend]
  apply or_congr_left
  constructor
  · rintro ⟨p, u, us, h, hu⟩
    cases p with
    | nil =>
      obtain ⟨rfl, -⟩ := List.cons.inj h
      exact hu
    | cons v p => exact absurd h (by simp)
  · exact fun h => ⟨[], t, [], rfl, h⟩

/-! ## What can be read -/

/-- The outermost bracket that is open in a prelude is no brace. -/
theorem getLast?_of_passToken {t : Token} {o o' : List Bracket} (h : passToken t o = some o')
    (ho : o.getLast? ≠ some .curly) : o'.getLast? ≠ some .curly := by
  cases o with
  | nil =>
    cases hk : t.kind with
    | opening b => cases b <;> simp [passToken, hk] at h <;> subst h <;> simp
    | _ => simp [passToken, hk] at h <;> subst h <;> simp
  | cons b bs =>
    have hstay : (b :: bs).getLast? = some .curly → False := ho
    cases hk : t.kind with
    | opening c =>
      obtain rfl : c :: b :: bs = o' := by simpa [passToken, hk] using h
      rwa [List.getLast?_cons_cons]
    | closing c =>
      by_cases hc : b = c
      · obtain rfl : bs = o' := by simpa [passToken, hk, hc] using h
        cases bs with
        | nil => simp
        | cons d bs => rwa [List.getLast?_cons_cons] at ho
      · obtain rfl : b :: bs = o' := by simpa [passToken, hk, hc] using h
        exact ho
    | _ =>
      obtain rfl : b :: bs = o' := by simpa [passToken, hk] using h
      exact ho

theorem getLast?_of_passes {ts : List Token} {o o' : List Bracket} (h : passes o ts = some o')
    (ho : o.getLast? ≠ some .curly) : o'.getLast? ≠ some .curly := by
  induction ts generalizing o with
  | nil =>
    obtain rfl := Option.some.inj h
    exact ho
  | cons t ts ih =>
    obtain ⟨o₁, h₁, h⟩ := passes_cons_eq_some_iff.1 h
    exact ih h (getLast?_of_passToken h₁ ho)

/-- A prelude goes over nothing that is exposed. -/
theorem not_exposed_of_passes {ts : List Token} {o o' : List Bracket} (h : passes o ts = some o')
    (ho : o.getLast? ≠ some .curly) (outer : List Bracket) : ¬Exposed (o ++ outer) ts := by
  induction ts generalizing o with
  | nil => exact not_exposed_nil _
  | cons t ts ih =>
    obtain ⟨o₁, h₁, h⟩ := passes_cons_eq_some_iff.1 h
    rw [exposed_cons_iff, stepBracket_of_passToken h₁]
    rintro (⟨hfault, hcurly⟩ | hrest)
    · cases o with
      | nil => cases hk : t.kind <;> simp_all [passToken, Kind.IsFault]
      | cons b bs =>
        have hlast := List.getLast?_eq_some_getLast (List.cons_ne_nil b bs)
        have hmem := List.getLast_mem (List.cons_ne_nil b bs)
        have hbrace := hcurly _ (List.mem_append_left outer hmem)
        rw [hlast, hbrace] at ho
        exact ho rfl
    · exact ih h (getLast?_of_passToken h₁ ho) hrest

theorem not_exposed_append {outer : List Bracket} {ts us : List Token} (h : ¬Exposed outer ts)
    (h' : ¬Exposed (openAfter outer ts) us) : ¬Exposed outer (ts ++ us) := by
  rw [exposed_append_iff]
  exact not_or.2 ⟨h, h'⟩

theorem not_exposed_cons {outer : List Bracket} {t : Token} {ts : List Token}
    (h : ¬t.kind.IsFault outer) (h' : ¬Exposed (stepBracket outer t) ts) :
    ¬Exposed outer (t :: ts) := by
  rw [exposed_cons_iff]
  exact not_or.2 ⟨fun hfault => h hfault.1, h'⟩

theorem not_exposed_prelude {p : List Token} {o : List Bracket} (h : passes [] p = some o)
    (outer : List Bracket) : ¬Exposed outer p :=
  not_exposed_of_passes h (by simp) outer

theorem not_isFault_of_isTrivia {t : Token} (h : t.isTrivia = true) (outer : List Bracket) :
    ¬t.kind.IsFault outer := by
  cases hk : t.kind <;> simp_all [Token.isTrivia, Kind.IsFault]

theorem not_isFault_semicolon {t : Token} (h : t.kind = .semicolon) (outer : List Bracket) :
    ¬t.kind.IsFault outer := by
  simp [Kind.IsFault, h]

theorem not_isFault_brace {t : Token} (h : t.kind = .opening .curly) (outer : List Bracket) :
    ¬t.kind.IsFault outer := by
  simp [Kind.IsFault, h]

theorem not_isFault_close {t : Token} (h : t.kind = .closing .curly) (outer : List Bracket) :
    ¬t.kind.IsFault (.curly :: outer) := by
  simp [Kind.IsFault, h]

/-- A prelude with the brace behind it. -/
theorem not_exposed_append_brace {p ts : List Token} {brace : Token} (hpass : passes [] p = some [])
    (hbrace : brace.kind = .opening .curly) {outer : List Bracket}
    (h : ¬Exposed (.curly :: outer) ts) : ¬Exposed outer (p ++ brace :: ts) := by
  refine not_exposed_append (not_exposed_prelude hpass outer) ?_
  rw [openAfter_of_passes_nil hpass, List.nil_append]
  refine not_exposed_cons (not_isFault_brace hbrace outer) ?_
  rw [stepBracket_brace hbrace]
  exact h

/-- **What can be read** exposes nothing. -/
theorem Reads.not_exposed {cut : Bool} {ts : List Token} {items : Items} (h : Reads cut ts items)
    (outer : List Bracket) : ¬Exposed outer ts := by
  induction h generalizing outer with
  | done => exact not_exposed_nil outer
  | trivia ht h ih =>
    refine not_exposed_cons (not_isFault_of_isTrivia ht outer) ?_
    rw [stepBracket_trivia ht]
    exact ih outer
  | last hne hstart hpass ho => exact not_exposed_prelude hpass outer
  | semicolon hstart hpass hs h ih =>
    refine not_exposed_append (not_exposed_prelude hpass outer) ?_
    rw [openAfter_of_passes_nil hpass, List.nil_append]
    refine not_exposed_cons (not_isFault_semicolon hs outer) ?_
    rw [stepBracket_semicolon hs]
    exact ih outer
  | block hstart hpass hbrace hbody hclose h ihbody ih =>
    refine not_exposed_append_brace hpass hbrace (not_exposed_append (ihbody _) ?_)
    rw [hbody.openAfter_eq]
    refine not_exposed_cons (not_isFault_close hclose outer) ?_
    rw [stepBracket_close hclose]
    exact ih outer
  | cutBlock hstart hpass hbrace hbody ih => exact not_exposed_append_brace hpass hbrace (ih _)

/-! ## Groups in brackets -/

/-- The place behind the bracket of a group in brackets, if a group is open behind the token or the
token ends one. `outer` are the brackets open in front of it; the braces of blocks open no group. -/
def stepGroup (outer : List Bracket) (t : Token) (group : Option Location) : Option Location :=
  if outer.all (· == .curly) then
    match t.kind with
    | .opening .curly => none
    | .opening _ => some (t.location.advance t.text)
    | _ => none
  else group

/-- The same behind tokens. -/
def groupAfter (outer : List Bracket) (group : Option Location) : List Token → Option Location
  | [] => group
  | t :: ts => groupAfter (stepBracket outer t) (stepGroup outer t group) ts

theorem groupAfter_append (outer : List Bracket) (group : Option Location) (ts us : List Token) :
    groupAfter outer group (ts ++ us) =
      groupAfter (openAfter outer ts) (groupAfter outer group ts) us := by
  induction ts generalizing outer group with
  | nil => rfl
  | cons t ts ih => rw [List.cons_append, groupAfter, groupAfter, openAfter_cons, ih]

/-- Only a bracket opens a group. -/
theorem stepGroup_eq_none {outer : List Bracket} (hcurly : ∀ b ∈ outer, b = .curly) {t : Token}
    (ht : ∀ b, t.kind = .opening b → b = .curly) (group : Option Location) :
    stepGroup outer t group = none := by
  have hall : outer.all (· == .curly) = true := by simpa using hcurly
  rw [stepGroup, if_pos hall]
  split
  · rfl
  · rename_i b hne hk
    exact absurd (ht b hk) hne
  · rfl

theorem all_curly_eq_isEmpty {o : List Bracket} (ho : o.getLast? ≠ some .curly) :
    o.all (· == .curly) = o.isEmpty := by
  rcases o.eq_nil_or_concat with rfl | ⟨o, b, rfl⟩
  · rfl
  · rw [List.concat_eq_append] at ho ⊢
    have hb : (b == .curly) = false := by simpa using ho
    rw [List.all_append, List.all_cons, hb, Bool.false_and, Bool.and_false]
    simp

theorem stepGroup_of_passToken {t : Token} {o o' : List Bracket} (h : passToken t o = some o')
    (ho : o.getLast? ≠ some .curly) (group : Option Location) :
    stepGroup o t group = passGroup t o group := by
  rw [stepGroup, all_curly_eq_isEmpty ho]
  cases o with
  | cons b bs => rfl
  | nil =>
    cases hk : t.kind with
    | opening b => cases b <;> simp_all [passToken, passGroup]
    | _ => simp [passGroup, hk]

theorem groupAfter_cons_of_passToken {t : Token} {o o' : List Bracket}
    (h : passToken t o = some o') (ho : o.getLast? ≠ some .curly) (group : Option Location)
    (ts : List Token) :
    groupAfter o group (t :: ts) = groupAfter o' (passGroup t o group) ts := by
  have hstep : stepBracket o t = o' := by simpa using stepBracket_of_passToken h []
  rw [groupAfter, hstep, stepGroup_of_passToken h ho]

/-- Blocks around a prelude do not count in it. -/
theorem groupAfter_of_passes {p : List Token} {o o' : List Bracket} (h : passes o p = some o')
    {outer : List Bracket} (hcurly : ∀ b ∈ outer, b = .curly) (group : Option Location) :
    groupAfter (o ++ outer) group p = groupAfter o group p := by
  have hall : outer.all (· == .curly) = true := by simpa using hcurly
  induction p generalizing o group with
  | nil => rfl
  | cons t p ih =>
    obtain ⟨o₁, h₁, h⟩ := passes_cons_eq_some_iff.1 h
    have hstep : stepBracket o t = o₁ := by simpa using stepBracket_of_passToken h₁ []
    have hgroup : stepGroup (o ++ outer) t group = stepGroup o t group := by
      rw [stepGroup, stepGroup, List.all_append, hall, Bool.and_true]
    rw [groupAfter, groupAfter, stepBracket_of_passToken h₁, hstep, hgroup, ih h]

/-! ## What cannot be read -/

/-- A prelude fails at a token that it cannot go over and that does not stop it. The error names the
place of the token, or the place behind the bracket of a group right in front of it. -/
theorem exists_of_takePrelude_eq_error {nested : Bool} {o : List Bracket} {group : Option Location}
    {ts : List Token} {e : SyntaxError} (ho : o.getLast? ≠ some .curly)
    (h : takePrelude nested o group ts = .error e) :
    ∃ p t us, ts = p ++ t :: us ∧ passes o p = some [] ∧ passToken t [] = none ∧
      ¬t.Stops nested ∧ e.location = (groupAfter o group p).getD t.location ∧
      t.kind.fault? = some e.token := by
  induction ts generalizing o group with
  | nil => exact absurd h (by simp [takePrelude, pure, Except.pure])
  | cons t ts ih =>
    cases hpass : passToken t o with
    | some o₁ =>
      rw [takePrelude_of_passToken hpass] at h
      cases htake : takePrelude nested o₁ (passGroup t o group) ts with
      | ok a =>
        rw [htake] at h
        exact absurd h (by simp [Functor.map, Except.map])
      | error e' =>
        rw [htake] at h
        obtain rfl : e' = e := by simpa [Functor.map, Except.map] using h
        obtain ⟨p, u, us, rfl, hp, hu⟩ := ih (getLast?_of_passToken hpass ho) htake
        refine ⟨t :: p, u, us, rfl, passes_cons_eq_some_iff.2 ⟨o₁, hpass, hp⟩, ?_⟩
        rw [groupAfter_cons_of_passToken hpass ho]
        exact hu
    | none =>
      obtain ⟨hstop, -⟩ := (takePrelude_of_passToken_eq_none hpass nested group ts).resolve_left
        fun hok => absurd (hok.2.symm.trans h) (by simp)
      cases o with
      | cons b bs => cases hk : t.kind <;> simp [passToken, hk] at hpass
      | nil =>
        refine ⟨[], t, ts, rfl, rfl, hpass, hstop, ?_⟩
        obtain ⟨kind, text, location⟩ := t
        cases kind with
        | opening b => cases b <;> simp_all [passToken, Token.Stops]
        | closing b =>
          cases nested <;> cases b <;> simp_all [takePrelude, Token.Stops, Kind.fault?, throw,
            throwThe, MonadExceptOf.throw] <;> subst h <;> simp [groupAfter]
        | _ =>
          simp_all [passToken, takePrelude, Token.Stops, Kind.fault?, throw, throwThe,
            MonadExceptOf.throw] <;> subst h <;> simp [groupAfter]

theorem bind_eq_error_iff {ε α β : Type} {x : Except ε α} {f : α → Except ε β} {e : ε} :
    x >>= f = .error e ↔ x = .error e ∨ ∃ a, x = .ok a ∧ f a = .error e := by
  cases x <;> simp [bind, Except.bind]

/-- Tokens that cannot be read, and the error that says so. The flag says whether they stand in a
block. -/
inductive Rejects : Bool → List Token → SyntaxError → Prop
  | trivia {nested : Bool} {t : Token} {ts : List Token} {e : SyntaxError}
      (ht : t.isTrivia = true) (h : Rejects nested ts e) : Rejects nested (t :: ts) e
  /-- A prelude comes to a token that it cannot go over and that does not stop it. -/
  | prelude {nested : Bool} {p us : List Token} {t : Token} {e : SyntaxError}
      (hstart : StartsStatement (p ++ t :: us)) (hpass : passes [] p = some [])
      (hnone : passToken t [] = none) (hstop : ¬t.Stops nested)
      (hlocation : e.location = (groupAfter [] none p).getD t.location)
      (htoken : t.kind.fault? = some e.token) : Rejects nested (p ++ t :: us) e
  | semicolon {nested : Bool} {p ts : List Token} {s : Token} {e : SyntaxError}
      (hstart : StartsStatement p) (hpass : passes [] p = some []) (hs : s.kind = .semicolon)
      (h : Rejects nested ts e) : Rejects nested (p ++ s :: ts) e
  /-- The block of a statement cannot be read. -/
  | inBlock {nested : Bool} {p ts : List Token} {brace : Token} {e : SyntaxError}
      (hstart : StartsStatement p) (hpass : passes [] p = some [])
      (hbrace : brace.kind = .opening .curly) (h : Rejects true ts e) :
      Rejects nested (p ++ brace :: ts) e
  /-- What stands behind a block cannot be read. -/
  | behindBlock {nested : Bool} {p body ts : List Token} {brace close : Token} {inner : Items}
      {e : SyntaxError} (hstart : StartsStatement p) (hpass : passes [] p = some [])
      (hbrace : brace.kind = .opening .curly) (hbody : Reads false body inner)
      (hclose : close.kind = .closing .curly) (h : Rejects nested ts e) :
      Rejects nested (p ++ brace :: (body ++ close :: ts)) e

theorem Rejects.append_trivia {nested : Bool} {a ts : List Token} {e : SyntaxError}
    (ha : ∀ t ∈ a, t.isTrivia = true) (h : Rejects nested ts e) : Rejects nested (a ++ ts) e := by
  induction a with
  | nil => exact h
  | cons t a ih =>
    have ht : t.isTrivia = true := ha t List.mem_cons_self
    exact .trivia ht (ih fun u hu => ha u (List.mem_cons_of_mem t hu))

section

variable {fuel : Nat} {e : SyntaxError} (ih : ∀ {nested : Bool} {ts : List Token},
  ts.length < fuel → parseItems nested fuel ts = .error e → Rejects nested ts e)

include ih

/-- A block that cannot be read, or what stands behind it. -/
theorem rejects_of_block {nested : Bool} {p ts : List Token} {brace : Token}
    (hstart : StartsStatement p) (hpass : passes [] p = some [])
    (hbrace : brace.kind = .opening .curly) (hlen : ts.length < fuel)
    (h : parseItems true fuel ts = .error e ∨ ∃ inner rest, parseItems true fuel ts =
      .ok (inner, rest) ∧ parseItems nested fuel (rest.drop 1) = .error e) :
    Rejects nested (p ++ brace :: ts) e := by
  rcases h with h | ⟨inner, rest, hinner, h⟩
  · exact .inBlock hstart hpass hbrace (ih hlen h)
  · obtain ⟨cut, body, rfl, hend, hbody⟩ := (parseItems_eq_ok_iff hlen).1 hinner
    cases cut with
    | true =>
      -- the input ends the block, so nothing is left that could fail
      obtain rfl := hend
      rw [List.drop_nil, parseItems_nil] at h
      exact absurd h (by simp)
    | false =>
      obtain ⟨-, close, ts, rfl, hclose⟩ := hend
      rw [List.length_append, List.length_cons] at hlen
      have hrest : Rejects nested ts e := ih (by omega) h
      exact .behindBlock hstart hpass hbrace hbody hclose hrest

/-- A statement that cannot be read, or what stands behind it. -/
theorem rejects_of_startsStatement {nested : Bool} {ts : List Token}
    (hstart : StartsStatement ts) (hlen : ts.length ≤ fuel)
    (h : parseItems nested (fuel + 1) ts = .error e) : Rejects nested ts e := by
  have hparse := h
  rw [parseItems, dropTrivia_of_startsStatement hstart] at h
  cases hatEnd : atEnd nested ts with
  | true => simp [hatEnd, pure, Except.pure] at h
  | false =>
    simp only [hatEnd, Bool.false_eq_true, if_false] at h
    rcases bind_eq_error_iff.1 h with htake | ⟨⟨p, rest⟩, htake, h⟩
    · obtain ⟨p, t, us, rfl, hpass, hnone, hstop, hlocation, htoken⟩ :=
        exists_of_takePrelude_eq_error (by simp) htake
      exact .prelude hstart hpass hnone hstop hlocation htoken
    obtain ⟨rfl, o, hpass, hrest⟩ := takePrelude_eq_ok_iff.1 htake
    cases rest with
    | nil => simp [pure, Except.pure] at h
    | cons t ts =>
      obtain ⟨rfl, t', ts', ht', hstop⟩ := hrest.resolve_left (List.cons_ne_nil _ _)
      obtain ⟨rfl, rfl⟩ := List.cons.inj ht'
      rw [parseItems_of_stops hstart.of_append hpass hstop ts hatEnd] at hparse
      rw [List.length_append, List.length_cons] at hlen
      rcases hstop with hk | hk | ⟨-, hk⟩ <;> simp only [hk] at hparse
      · have hrest : parseItems nested fuel ts = .error e :=
          (bind_eq_error_iff.1 hparse).resolve_right (by simp [pure, Except.pure])
        exact .semicolon hstart.of_append hpass hk (ih (by omega) hrest)
      · apply rejects_of_block ih hstart.of_append hpass hk (by omega)
        rcases bind_eq_error_iff.1 hparse with hinner | ⟨⟨inner, rest⟩, hinner, hparse⟩
        · exact .inl hinner
        · refine .inr ⟨inner, rest, hinner, ?_⟩
          exact (bind_eq_error_iff.1 hparse).resolve_right (by simp [pure, Except.pure])
      · simp [pure, Except.pure] at hparse

end

/-- **An error of the parser** comes from tokens that cannot be read. -/
theorem rejects_of_parseItems {nested : Bool} {fuel : Nat} {ts : List Token} {e : SyntaxError}
    (hfuel : ts.length < fuel) (h : parseItems nested fuel ts = .error e) :
    Rejects nested ts e := by
  induction fuel generalizing nested ts with
  | zero => omega
  | succ fuel ih =>
    have hlen : (dropTrivia ts).length ≤ fuel :=
      (List.length_dropWhile_le _ _).trans (Nat.le_of_lt_succ hfuel)
    rw [← parseItems_dropTrivia] at h
    have hrest := rejects_of_startsStatement ih (startsStatement_dropTrivia ts) hlen h
    have hwhole := hrest.append_trivia (a := ts.takeWhile Token.isTrivia)
      fun t ht => List.mem_takeWhile_imp ht
    rwa [dropTrivia, List.takeWhile_append_dropWhile] at hwhole

/-! ## The first token at fault -/

/-- The first token that is exposed in the tokens is the one that an error names, with its place or
the place behind the bracket of the group right in front of it. -/
def FirstExposed (outer : List Bracket) (group : Option Location) (ts : List Token)
    (e : SyntaxError) : Prop :=
  ∃ p t us, ts = p ++ t :: us ∧ ¬Exposed outer p ∧ t.kind.IsFault (openAfter outer p) ∧
    (∀ b ∈ openAfter outer p, b = .curly) ∧
    e.location = (groupAfter outer group p).getD t.location ∧ t.kind.fault? = some e.token

section

variable {outer : List Bracket} {group : Option Location} {ts : List Token} {e e' : SyntaxError}

theorem FirstExposed.exposed (h : FirstExposed outer group ts e) : Exposed outer ts := by
  obtain ⟨p, t, us, rfl, -, hfault, hcurly, -⟩ := h
  exact ⟨p, t, us, rfl, hfault, hcurly⟩

theorem FirstExposed.append {a : List Token} (ha : ¬Exposed outer a)
    (h : FirstExposed (openAfter outer a) (groupAfter outer group a) ts e) :
    FirstExposed outer group (a ++ ts) e := by
  obtain ⟨p, t, us, rfl, hp, hfault⟩ := h
  refine ⟨a ++ p, t, us, by simp, not_exposed_append ha hp, ?_⟩
  rw [openAfter_append, groupAfter_append]
  exact hfault

/-- A token behind which nothing is left of the groups in front of it. -/
theorem FirstExposed.cons {t : Token} (ht : ¬t.kind.IsFault outer)
    (hgroup : stepGroup outer t group = none) (h : FirstExposed (stepBracket outer t) none ts e) :
    FirstExposed outer group (t :: ts) e := by
  refine FirstExposed.append (a := [t]) (not_exposed_cons ht (not_exposed_nil _)) ?_
  rw [openAfter_cons, groupAfter, hgroup]
  exact h

/-- There is only one first. -/
theorem FirstExposed.unique (h : FirstExposed outer group ts e)
    (h' : FirstExposed outer group ts e') : e = e' := by
  obtain ⟨p, t, us, rfl, hp, hfault, hcurly, hloc, htoken⟩ := h
  obtain ⟨p', t', us', heq, hp', hfault', hcurly', hloc', htoken'⟩ := h'
  have hsame : p = p' ∧ t :: us = t' :: us' := by
    rcases List.append_eq_append_iff.1 heq with ⟨c, rfl, hc⟩ | ⟨c, rfl, hc⟩
    · cases c with
      | nil => exact ⟨by simp, by simpa using hc⟩
      | cons u c =>
        obtain ⟨rfl, -⟩ := List.cons.inj hc
        exact absurd ⟨p, t, c, rfl, hfault, hcurly⟩ hp'
    · cases c with
      | nil => exact ⟨by simp, by simpa using hc.symm⟩
      | cons u c =>
        obtain ⟨rfl, -⟩ := List.cons.inj hc
        exact absurd ⟨p', t', c, rfl, hfault', hcurly'⟩ hp
  obtain ⟨rfl, htail⟩ := hsame
  obtain ⟨rfl, -⟩ := List.cons.inj htail
  obtain ⟨location, token⟩ := e
  obtain ⟨location', token'⟩ := e'
  obtain rfl : location = location' := hloc.trans hloc'.symm
  obtain rfl : token = token' := Option.some.inj (htoken.symm.trans htoken')
  rfl

end

/-- A token that a prelude fails at is at fault where only blocks are open; a closing brace is so
only outside all blocks. -/
theorem isFault_of_passToken_eq_none {t : Token} {nested : Bool} (h : passToken t [] = none)
    (hstop : ¬t.Stops nested) {outer : List Bracket} (hcurly : ∀ b ∈ outer, b = .curly)
    (hnested : nested = false → outer = []) : t.kind.IsFault outer := by
  cases hk : t.kind with
  | closing b =>
    simp only [Kind.IsFault]
    intro hb
    obtain rfl := hcurly b hb
    cases nested with
    | true => exact hstop (.inr (.inr ⟨rfl, hk⟩))
    | false => exact absurd hb (by simp [hnested rfl])
  | opening b => cases b <;> simp_all [passToken, Token.Stops]
  | _ => simp_all [passToken, Token.Stops, Kind.IsFault]

theorem FirstExposed.append_brace {p ts : List Token} {brace : Token} {e : SyntaxError}
    (hpass : passes [] p = some []) (hbrace : brace.kind = .opening .curly)
    {outer : List Bracket} (hcurly : ∀ b ∈ outer, b = .curly)
    (h : FirstExposed (.curly :: outer) none ts e) :
    FirstExposed outer none (p ++ brace :: ts) e := by
  apply FirstExposed.append (not_exposed_prelude hpass outer)
  rw [openAfter_of_passes_nil hpass, List.nil_append]
  have hgroup := stepGroup_eq_none hcurly (t := brace) (by simp [hbrace])
  refine .cons (not_isFault_brace hbrace outer) (hgroup _) ?_
  rw [stepBracket_brace hbrace]
  exact h

/-- **What cannot be read** has a first token that is exposed. -/
theorem Rejects.firstExposed {nested : Bool} {ts : List Token} {e : SyntaxError}
    (h : Rejects nested ts e) {outer : List Bracket} (hcurly : ∀ b ∈ outer, b = .curly)
    (hnested : nested = false → outer = []) : FirstExposed outer none ts e := by
  induction h generalizing outer with
  | @trivia nested t ts e ht h ih =>
    have hgroup : stepGroup outer t none = none :=
      stepGroup_eq_none hcurly (fun b hb => absurd ht (by simp [Token.isTrivia, hb])) none
    refine .cons (not_isFault_of_isTrivia ht outer) hgroup ?_
    rw [stepBracket_trivia ht]
    exact ih hcurly hnested
  | @prelude nested p us t e hstart hpass hnone hstop hlocation htoken =>
    refine ⟨p, t, us, rfl, not_exposed_prelude hpass outer, ?_⟩
    have hgroup : groupAfter outer none p = groupAfter [] none p :=
      groupAfter_of_passes hpass hcurly none
    rw [openAfter_of_passes_nil hpass, List.nil_append, hgroup]
    exact ⟨isFault_of_passToken_eq_none hnone hstop hcurly hnested, hcurly, hlocation, htoken⟩
  | @semicolon nested p ts s e hstart hpass hs h ih =>
    apply FirstExposed.append (not_exposed_prelude hpass outer)
    rw [openAfter_of_passes_nil hpass, List.nil_append]
    have hgroup := stepGroup_eq_none hcurly (t := s) (by simp [hs])
    refine .cons (not_isFault_semicolon hs outer) (hgroup _) ?_
    rw [stepBracket_semicolon hs]
    exact ih hcurly hnested
  | inBlock hstart hpass hbrace h ih =>
    refine FirstExposed.append_brace hpass hbrace hcurly (ih (fun b hb => ?_) (by simp))
    exact (List.mem_cons.1 hb).elim id (hcurly b)
  | @behindBlock nested p body ts brace close inner e hstart hpass hbrace hbody hclose h ih =>
    refine .append_brace hpass hbrace hcurly (.append (hbody.not_exposed _) ?_)
    rw [hbody.openAfter_eq]
    have hblock : ∀ b ∈ Bracket.curly :: outer, b = .curly := fun b hb =>
      (List.mem_cons.1 hb).elim id (hcurly b)
    have hgroup := stepGroup_eq_none hblock (t := close) (by simp [hclose])
    refine .cons (not_isFault_close hclose outer) (hgroup _) ?_
    rw [stepBracket_close hclose]
    exact ih hcurly hnested

/-! ## Stylesheets -/

/-- **The error of a text that is no stylesheet** names the first token that is exposed. -/
theorem parse_eq_error_iff {css : String} {e : SyntaxError} :
    Sheet.parse css = .error e ↔ FirstExposed [] none (tokens (Text.dropMark css.toList)) e := by
  have hforward : ∀ {e}, Sheet.parse css = .error e →
      FirstExposed [] none (tokens (Text.dropMark css.toList)) e := by
    intro e h
    rw [Sheet.parse, bind_eq_error_iff] at h
    have hitems := h.resolve_right (by simp [pure, Except.pure])
    exact (rejects_of_parseItems (Nat.lt_succ_self _) hitems).firstExposed (by simp) (by simp)
  refine ⟨hforward, fun hfirst => ?_⟩
  cases hparse : Sheet.parse css with
  | error e' => rw [hfirst.unique (hforward hparse)]
  | ok sheet =>
    obtain ⟨items, hreads, -⟩ := parse_eq_ok_iff.1 hparse
    exact absurd hfirst.exposed (hreads.not_exposed [])

example : (match Sheet.parse "a(b)\x7d" with
    | .ok _ => none
    | .error e => some (e.line, e.col)) = some (1, 3) := by
  decide +kernel

/-- **A text is no stylesheet** exactly if a string or an address in it is spoilt, or a closing
bracket closes nothing, in no bracket but the braces of blocks. -/
theorem exists_parse_eq_error_iff (css : String) :
    (∃ e, Sheet.parse css = .error e) ↔
      ∃ p t us, tokens (Text.dropMark css.toList) = p ++ t :: us ∧
        t.kind.IsFault (openAfter [] p) ∧ ∀ b ∈ openAfter [] p, b = .curly := by
  constructor
  · rintro ⟨e, h⟩
    exact (parse_eq_error_iff.1 h).exposed
  · intro hexposed
    cases hparse : Sheet.parse css with
    | error e => exact ⟨e, rfl⟩
    | ok sheet =>
      obtain ⟨items, hreads, -⟩ := parse_eq_ok_iff.1 hparse
      exact absurd hexposed (hreads.not_exposed [])

/-- A string that a line break cuts off in the brackets of a function. -/
def spoiltCss : String := ".a \x7b src: format(\"x\n); \x7d"

/-- **A token at fault in a round bracket** is no error. -/
theorem not_forall_exists_parse_eq_error_iff :
    ¬∀ css : String, (∃ e, Sheet.parse css = .error e) ↔
      ∃ p t us, tokens (Text.dropMark css.toList) = p ++ t :: us ∧
        t.kind.IsFault (openAfter [] p) := by
  intro h
  have hok : (Sheet.parse spoiltCss).toOption.isSome = true := by decide +kernel
  have hfault : ∃ t ∈ ((tokens (Text.dropMark spoiltCss.toList)).drop 9).head?,
      t.kind.IsFault (openAfter [] ((tokens (Text.dropMark spoiltCss.toList)).take 9)) := by
    decide +kernel
  obtain ⟨t, ht, hfault⟩ := hfault
  obtain ⟨us, hus⟩ := List.head?_eq_some_iff.1 ht
  have hsplit := List.take_append_drop 9 (tokens (Text.dropMark spoiltCss.toList))
  rw [hus] at hsplit
  obtain ⟨e, he⟩ := (h spoiltCss).2 ⟨_, t, us, hsplit.symm, hfault⟩
  rw [he] at hok
  exact absurd hok (by simp [Except.toOption])

end GlyphTrim.Css
