import GlyphTrim.Css.Sheet
import Mathlib.Data.List.TakeWhile

/-!
# What a stylesheet reads

`Reads cut ts items` says that the tokens `ts` are statements that make `items`. It has one rule
for each kind of statement and no fuel, so facts about all stylesheets are proved by induction on
it. With `cut` the input may end inside the last statement, which then keeps what it has; without
`cut` every block is closed.

* `takePrelude_eq_ok_iff`: a prelude is the tokens that `passes` goes over, up to a token that
  stops it.
* `parseItems_eq_ok_iff`: the parser reads `items` from `ts` and stops at `rest` exactly if
  the tokens in front of `rest` read `items`.
* `parse_eq_ok_iff`: the same for a whole stylesheet.
-/

namespace GlyphTrim.Css

theorem map_eq_ok_iff {ε α β : Type} {x : Except ε α} {f : α → β} {b : β} :
    f <$> x = .ok b ↔ ∃ a, x = .ok a ∧ f a = b := by
  cases x <;> simp [Functor.map, Except.map]

theorem bind_eq_ok_iff {ε α β : Type} {x : Except ε α} {f : α → Except ε β} {b : β} :
    x >>= f = .ok b ↔ ∃ a, x = .ok a ∧ f a = .ok b := by
  cases x <;> simp [bind, Except.bind]

theorem exists_eq_ok_of_toOption_map {ε α β : Type} {x : Except ε α} {f : α → β} {b : β}
    (h : x.toOption.map f = some b) : ∃ a, x = .ok a ∧ f a = b := by
  cases x with
  | error e => exact absurd h (by simp [Except.toOption])
  | ok a => exact ⟨a, rfl, Option.some.inj h⟩

/-! ## Preludes -/

/-- The brackets open behind a token of a prelude, from those open in front of it; none if a
prelude cannot go over the token. -/
def passToken (t : Token) : List Bracket → Option (List Bracket)
  | b :: bs =>
    match t.kind with
    | .closing c => some (if b = c then bs else b :: bs)
    | .opening c => some (c :: b :: bs)
    | _ => some (b :: bs)
  | [] =>
    match t.kind with
    | .opening .curly | .closing _ | .semicolon | .badString _ | .badUrl _ => none
    | .opening b => some [b]
    | _ => some []

/-- The brackets open behind tokens of a prelude. -/
def passes (open_ : List Bracket) : List Token → Option (List Bracket)
  | [] => some open_
  | t :: ts => (passToken t open_).bind (passes · ts)

/-- The place behind the bracket of a group in brackets, if the prelude is inside a group behind the
token or the token ends one, from the same in front of the token. -/
def passGroup (t : Token) (o : List Bracket) (group : Option Location) : Option Location :=
  match o, t.kind with
  | [], .opening _ => some (t.location.advance t.text)
  | [], _ => none
  | _ :: _, _ => group

theorem passes_cons_eq_some_iff {t : Token} {ts : List Token} {o o' : List Bracket} :
    passes o (t :: ts) = some o' ↔ ∃ o₁, passToken t o = some o₁ ∧ passes o₁ ts = some o' := by
  rw [passes, Option.bind_eq_some_iff]

theorem passes_append_eq_some_iff {ts us : List Token} {o o' : List Bracket} :
    passes o (ts ++ us) = some o' ↔ ∃ o₁, passes o ts = some o₁ ∧ passes o₁ us = some o' := by
  induction ts generalizing o with
  | nil => simp [passes]
  | cons t ts ih =>
    rw [List.cons_append, passes_cons_eq_some_iff]
    constructor
    · rintro ⟨o₁, h₁, h⟩
      obtain ⟨o₂, h₂, h⟩ := ih.1 h
      exact ⟨o₂, passes_cons_eq_some_iff.2 ⟨o₁, h₁, h₂⟩, h⟩
    · rintro ⟨o₂, h, h₂⟩
      obtain ⟨o₁, h₁, h⟩ := passes_cons_eq_some_iff.1 h
      exact ⟨o₁, h₁, ih.2 ⟨o₂, h, h₂⟩⟩

theorem passes_of_space_or_other {ts : List Token} (h : ∀ t ∈ ts, t.kind = .space ∨ t.kind = .other)
    (o : List Bracket) : passes o ts = some o := by
  induction ts with
  | nil => rfl
  | cons t ts ih =>
    have hpass : passToken t o = some o := by
      rcases h t List.mem_cons_self with hk | hk <;> cases o <;> rw [passToken, hk]
    rw [passes, hpass]
    exact ih fun u hu => h u (List.mem_cons_of_mem t hu)

/-- Whether a prelude stops in front of a token: `nested` tells that a closing brace stops it. -/
def Token.Stops (nested : Bool) (t : Token) : Prop :=
  t.kind = .semicolon ∨ t.kind = .opening .curly ∨ nested = true ∧ t.kind = .closing .curly

theorem takePrelude_of_passToken {t : Token} {o o' : List Bracket} (h : passToken t o = some o')
    (nested : Bool) (group : Option Location) (ts : List Token) :
    takePrelude nested o group (t :: ts) =
      (fun a => (t :: a.1, a.2)) <$> takePrelude nested o' (passGroup t o group) ts := by
  obtain ⟨kind, text, location⟩ := t
  cases o with
  | nil =>
    cases kind with
    | opening b => cases b <;> simp_all [passToken, takePrelude, passGroup]
    | _ => simp_all [passToken, takePrelude, passGroup, Kind.fault?]
  | cons b bs =>
    cases kind with
    | closing c =>
      by_cases hc : b = c <;> simp_all [passToken, takePrelude, passGroup]
    | _ => simp_all [passToken, takePrelude, passGroup]

/-- Where a prelude cannot go over a token it stops, or the token is at fault. -/
theorem takePrelude_of_passToken_eq_none {t : Token} {o : List Bracket}
    (h : passToken t o = none) (nested : Bool) (group : Option Location) (ts : List Token) :
    t.Stops nested ∧ takePrelude nested o group (t :: ts) = .ok ([], t :: ts) ∨
      ¬t.Stops nested ∧ ∃ e, takePrelude nested o group (t :: ts) = .error e := by
  obtain ⟨kind, text, location⟩ := t
  cases o with
  | cons b bs => cases kind <;> simp_all [passToken]
  | nil =>
    cases kind with
    | opening b => cases b <;> simp_all [passToken, takePrelude, Token.Stops, pure, Except.pure]
    | closing b =>
      cases nested <;> cases b <;> simp_all [passToken, takePrelude, Token.Stops, Kind.fault?, pure,
        Except.pure, throw, throwThe, MonadExceptOf.throw]
    | _ => simp_all [passToken, takePrelude, Token.Stops, Kind.fault?, pure, Except.pure, throw,
        throwThe, MonadExceptOf.throw]

theorem takePrelude_of_stops {t : Token} {nested : Bool} (h : t.Stops nested)
    (group : Option Location) (ts : List Token) :
    takePrelude nested [] group (t :: ts) = .ok ([], t :: ts) := by
  have hpass : passToken t [] = none := by
    rcases h with hk | hk | ⟨-, hk⟩ <;> rw [passToken, hk]
  rcases takePrelude_of_passToken_eq_none hpass nested group ts with ⟨-, heq⟩ | ⟨hstop, -⟩
  · exact heq
  · exact absurd h hstop

theorem takePrelude_append {nested : Bool} {o o' : List Bracket} {group : Option Location}
    {p rest : List Token} (hpass : passes o p = some o')
    (hrest : rest = [] ∨ o' = [] ∧ ∃ t ts', rest = t :: ts' ∧ t.Stops nested) :
    takePrelude nested o group (p ++ rest) = .ok (p, rest) := by
  induction p generalizing o group with
  | nil =>
    obtain rfl := Option.some.inj hpass
    rcases hrest with rfl | ⟨rfl, t, ts', rfl, hstop⟩
    · rfl
    · exact takePrelude_of_stops hstop group ts'
  | cons t p ih =>
    obtain ⟨o₁, h₁, hpass⟩ := passes_cons_eq_some_iff.1 hpass
    rw [List.cons_append, takePrelude_of_passToken h₁, ih hpass]
    rfl

theorem passes_of_takePrelude {nested : Bool} {o : List Bracket} {group : Option Location}
    {ts p rest : List Token} (h : takePrelude nested o group ts = .ok (p, rest)) :
    ts = p ++ rest ∧ ∃ o', passes o p = some o' ∧
      (rest = [] ∨ o' = [] ∧ ∃ t ts', rest = t :: ts' ∧ t.Stops nested) := by
  induction ts generalizing o group p with
  | nil =>
    obtain ⟨rfl, rfl⟩ := Prod.mk.inj (Except.ok.inj h)
    exact ⟨rfl, o, rfl, .inl rfl⟩
  | cons t ts ih =>
    cases hpass : passToken t o with
    | some o₁ =>
      rw [takePrelude_of_passToken hpass, map_eq_ok_iff] at h
      obtain ⟨⟨p', rest'⟩, hp, h⟩ := h
      obtain ⟨rfl, rfl⟩ := Prod.mk.inj h
      obtain ⟨rfl, o', ho', hrest⟩ := ih hp
      exact ⟨rfl, o', passes_cons_eq_some_iff.2 ⟨o₁, hpass, ho'⟩, hrest⟩
    | none =>
      have ho : o = [] := by
        cases o with
        | nil => rfl
        | cons b bs => cases hk : t.kind <;> simp [passToken, hk] at hpass
      rcases takePrelude_of_passToken_eq_none hpass nested group ts with
        ⟨hstop, heq⟩ | ⟨-, e, heq⟩
      · obtain ⟨rfl, rfl⟩ := Prod.mk.inj (Except.ok.inj (heq.symm.trans h))
        exact ⟨rfl, o, rfl, .inr ⟨ho, t, ts, rfl, hstop⟩⟩
      · rw [heq] at h
        exact absurd h (by simp)

/-- **A prelude** is the tokens it goes over, up to the end or to a token that stops it outside all
brackets. -/
theorem takePrelude_eq_ok_iff {nested : Bool} {o : List Bracket} {group : Option Location}
    {ts p rest : List Token} :
    takePrelude nested o group ts = .ok (p, rest) ↔
      ts = p ++ rest ∧ ∃ o', passes o p = some o' ∧
        (rest = [] ∨ o' = [] ∧ ∃ t ts', rest = t :: ts' ∧ t.Stops nested) := by
  constructor
  · exact passes_of_takePrelude
  · rintro ⟨rfl, o', hpass, hrest⟩
    exact takePrelude_append hpass hrest

/-! ## Statements -/

/-- Tokens that do not begin with white space or a comment. -/
def StartsStatement (ts : List Token) : Prop := ∀ t ∈ ts.head?, t.isTrivia = false

/-- The line on which tokens begin. -/
def lineOf (ts : List Token) : Nat := (ts.head?.map (·.location.breaks + 1)).getD 0

/-- The tokens `ts` are statements with the items `items`. With `cut` the input ends behind them
and may leave brackets open. -/
inductive Reads : Bool → List Token → Items → Prop
  | done {cut : Bool} : Reads cut [] {}
  | trivia {cut : Bool} {t : Token} {ts : List Token} {items : Items}
      (ht : t.isTrivia = true) (h : Reads cut ts items) : Reads cut (t :: ts) items
  /-- A statement that the block or the input ends. -/
  | last {cut : Bool} {p : List Token} {o : List Bracket} (hne : p ≠ [])
      (hstart : StartsStatement p) (hpass : passes [] p = some o) (ho : o = [] ∨ cut = true) :
      Reads cut p (Items.consStatement (trimmedText p) (rawText p) (lineOf p) {})
  | semicolon {cut : Bool} {p ts : List Token} {s : Token} {items : Items}
      (hstart : StartsStatement p) (hpass : passes [] p = some []) (hs : s.kind = .semicolon)
      (h : Reads cut ts items) :
      Reads cut (p ++ s :: ts)
        (Items.consStatement (trimmedText p) (rawText (p ++ [s])) (lineOf (p ++ [s])) items)
  | block {cut : Bool} {p body ts : List Token} {brace close : Token} {inner items : Items}
      (hstart : StartsStatement p) (hpass : passes [] p = some [])
      (hbrace : brace.kind = .opening .curly) (hbody : Reads false body inner)
      (hclose : close.kind = .closing .curly) (h : Reads cut ts items) :
      Reads cut (p ++ brace :: (body ++ close :: ts))
        (items.consNode (.ofBlock (trimmedText p) inner (rawText (p ++ brace :: (body ++ [close])))
          (lineOf (p ++ [brace]))))
  /-- A block that the input ends. -/
  | cutBlock {p body : List Token} {brace : Token} {inner : Items}
      (hstart : StartsStatement p) (hpass : passes [] p = some [])
      (hbrace : brace.kind = .opening .curly) (hbody : Reads true body inner) :
      Reads true (p ++ brace :: body)
        (Items.consNode (.ofBlock (trimmedText p) inner (rawText (p ++ brace :: body))
          (lineOf (p ++ [brace]))) {})

/-- What stands behind the items of a block or a stylesheet: nothing if the input ends there, and
the brace that closes the block otherwise. -/
def EndsItems (nested : Bool) : Bool → List Token → Prop
  | true, rest => rest = []
  | false, rest => nested = true ∧ ∃ t ts, rest = t :: ts ∧ t.kind = .closing .curly

theorem Reads.append_trivia {cut : Bool} {a ts : List Token} {items : Items}
    (ha : ∀ t ∈ a, t.isTrivia = true) (h : Reads cut ts items) : Reads cut (a ++ ts) items := by
  induction a with
  | nil => exact h
  | cons t a ih =>
    have ht : t.isTrivia = true := ha t List.mem_cons_self
    exact .trivia ht (ih fun u hu => ha u (List.mem_cons_of_mem t hu))

theorem startsStatement_dropTrivia (ts : List Token) : StartsStatement (dropTrivia ts) := by
  intro t ht
  have h := List.head?_dropWhile_not Token.isTrivia ts
  rw [dropTrivia] at ht
  rw [ht] at h
  simpa using h

theorem upTo_append (used rest : List Token) : upTo (used ++ rest) rest = used := by
  simp [upTo]

theorem StartsStatement.of_append {a b : List Token} (h : StartsStatement (a ++ b)) :
    StartsStatement a := by
  cases a with
  | nil => intro t ht; exact absurd ht (by simp)
  | cons t a => exact h

theorem upTo_append_cons (p : List Token) (t : Token) (ts : List Token) :
    upTo (p ++ t :: ts) ts = p ++ [t] := by
  simpa using upTo_append (p ++ [t]) ts

theorem lineOf_append_cons (p : List Token) (t : Token) (ts : List Token) :
    lineOf (p ++ t :: ts) = lineOf (p ++ [t]) := by
  cases p <;> rfl

theorem parseItems_nil (nested : Bool) (fuel : Nat) : parseItems nested fuel [] = .ok ({}, []) := by
  cases fuel <;> rfl

theorem dropTrivia_of_startsStatement {ts : List Token} (h : StartsStatement ts) :
    dropTrivia ts = ts := by
  cases ts with
  | nil => rfl
  | cons t ts =>
    have ht : t.isTrivia = false := h t rfl
    simp [dropTrivia, ht]

theorem StartsStatement.append_cons {p : List Token} (h : StartsStatement p) {t : Token}
    (ht : t.isTrivia = false) (ts : List Token) : StartsStatement (p ++ t :: ts) := by
  cases p with
  | nil =>
    intro u hu
    obtain rfl := Option.some.inj hu
    exact ht
  | cons u p => exact h

theorem isTrivia_eq_false_of_stops {nested : Bool} {t : Token} (h : t.Stops nested) :
    t.isTrivia = false := by
  rcases h with h | h | ⟨-, h⟩ <;> simp [Token.isTrivia, h]

/-- A token that a prelude goes over closes no block. -/
theorem atEnd_append_of_passes {p : List Token} {o : List Bracket} (hne : p ≠ [])
    (h : passes [] p = some o) (nested : Bool) (ts : List Token) :
    atEnd nested (p ++ ts) = false := by
  obtain ⟨t, p, rfl⟩ := List.exists_cons_of_ne_nil hne
  obtain ⟨o₁, h₁, -⟩ := passes_cons_eq_some_iff.1 h
  rw [List.cons_append, atEnd]
  cases hk : t.kind <;> simp_all [passToken]

theorem atEnd_append_cons {p : List Token} {o : List Bracket} (h : passes [] p = some o)
    {t : Token} (ht : t.kind ≠ .closing .curly) (nested : Bool) (ts : List Token) :
    atEnd nested (p ++ t :: ts) = false := by
  cases p with
  | nil => simp [atEnd, ht]
  | cons u p => exact atEnd_append_of_passes (List.cons_ne_nil u p) h nested (t :: ts)

theorem EndsItems.atEnd_eq {nested cut : Bool} {rest : List Token}
    (h : EndsItems nested cut rest) : atEnd nested rest = true ∧ StartsStatement rest := by
  cases cut with
  | true =>
    obtain rfl := h
    exact ⟨rfl, fun t ht => absurd ht (by simp)⟩
  | false =>
    obtain ⟨rfl, t, ts, rfl, hk⟩ := h
    refine ⟨by simp [atEnd, hk], fun u hu => ?_⟩
    obtain rfl := Option.some.inj hu
    simp [Token.isTrivia, hk]

/-- The parser behind a prelude that a token stops. -/
theorem parseItems_of_stops {nested : Bool} {p : List Token} {t : Token} (hstart : StartsStatement p)
    (hpass : passes [] p = some []) (hstop : t.Stops nested) (ts : List Token)
    (hatEnd : atEnd nested (p ++ t :: ts) = false) (fuel : Nat) :
    parseItems nested (fuel + 1) (p ++ t :: ts) =
      match t.kind with
      | .opening .curly => do
        let (inner, rest) ← parseItems true fuel ts
        let (items, rest') ← parseItems nested fuel (rest.drop 1)
        return (items.consNode (.ofBlock (trimmedText p) inner
          (rawText (upTo (p ++ t :: ts) (rest.drop 1))) (lineOf (p ++ [t]))), rest')
      | .semicolon => do
        let (items, rest) ← parseItems nested fuel ts
        return (Items.consStatement (trimmedText p) (rawText (p ++ [t])) (lineOf (p ++ [t])) items,
          rest)
      | _ =>
        return (Items.consStatement (trimmedText p) (rawText p) (lineOf (p ++ [t])) {}, t :: ts) := by
  have htake : takePrelude nested [] none (p ++ t :: ts) = .ok (p, t :: ts) :=
    takePrelude_eq_ok_iff.2 ⟨rfl, [], hpass, .inr ⟨rfl, t, ts, rfl, hstop⟩⟩
  have hstart' := hstart.append_cons (isTrivia_eq_false_of_stops hstop) ts
  have hline : ((p ++ t :: ts).head?.map (·.location.breaks + 1)).getD 0 = lineOf (p ++ [t]) :=
    lineOf_append_cons p t ts
  rw [parseItems, dropTrivia_of_startsStatement hstart', hline, htake]
  rcases hstop with hk | hk | ⟨-, hk⟩ <;>
    simp only [hk, hatEnd, Bool.false_eq_true, if_false, bind, Except.bind, upTo_append,
      upTo_append_cons]

/-! ## What the parser reads -/

/-- The tokens in front of `rest` read `items`, and the block or the input ends there. -/
def ReadsUpTo (nested : Bool) (ts rest : List Token) (items : Items) : Prop :=
  ∃ cut used, ts = used ++ rest ∧ EndsItems nested cut rest ∧ Reads cut used items

theorem Reads.eq_of_nil {cut : Bool} {items : Items} (h : Reads cut [] items) : items = {} := by
  generalize hts : ([] : List Token) = ts at h
  cases h with
  | done => rfl
  | trivia ht h => exact absurd hts (by simp)
  | last hne hstart hpass ho => exact absurd hts.symm hne
  | semicolon hstart hpass hs h => exact absurd hts (by simp)
  | block hstart hpass hbrace hbody hclose h => exact absurd hts (by simp)
  | cutBlock hstart hpass hbrace hbody => exact absurd hts (by simp)

theorem ReadsUpTo.append_trivia {nested : Bool} {a ts rest : List Token} {items : Items}
    (ha : ∀ t ∈ a, t.isTrivia = true) (h : ReadsUpTo nested ts rest items) :
    ReadsUpTo nested (a ++ ts) rest items := by
  obtain ⟨cut, used, rfl, hend, hreads⟩ := h
  exact ⟨cut, a ++ used, by rw [List.append_assoc], hend, hreads.append_trivia ha⟩

theorem readsUpTo_of_atEnd {nested : Bool} {ts : List Token} (h : atEnd nested ts = true) :
    ReadsUpTo nested ts ts {} := by
  cases ts with
  | nil => exact ⟨true, [], rfl, rfl, .done⟩
  | cons t ts =>
    have ht : nested = true ∧ t.kind = .closing .curly := by simpa [atEnd] using h
    exact ⟨false, [], rfl, ⟨ht.1, t, ts, rfl, ht.2⟩, .done⟩

/-- A block, and the statements behind the brace that closes it. -/
theorem ReadsUpTo.block {nested : Bool} {p ts rest₁ rest : List Token} {brace : Token}
    {inner items : Items} (hstart : StartsStatement p) (hpass : passes [] p = some [])
    (hbrace : brace.kind = .opening .curly) (hinner : ReadsUpTo true ts rest₁ inner)
    (hitems : ReadsUpTo nested (rest₁.drop 1) rest items) :
    ReadsUpTo nested (p ++ brace :: ts) rest (items.consNode (.ofBlock (trimmedText p) inner
      (rawText (upTo (p ++ brace :: ts) (rest₁.drop 1))) (lineOf (p ++ [brace])))) := by
  obtain ⟨cut₁, body, rfl, hend₁, hbody⟩ := hinner
  obtain ⟨cut, used, hused, hend, hreads⟩ := hitems
  cases cut₁ with
  | true =>
    -- the input ends in the block, so nothing stands behind it
    obtain rfl := hend₁
    obtain ⟨rfl, rfl⟩ := List.append_eq_nil_iff.1 hused.symm
    obtain rfl := hreads.eq_of_nil
    have hraw : upTo (p ++ brace :: body) [] = p ++ brace :: body := by
      simpa using upTo_append (p ++ brace :: body) []
    rw [List.append_nil, List.drop_nil, hraw]
    exact ⟨true, p ++ brace :: body, (List.append_nil _).symm, rfl,
      .cutBlock hstart hpass hbrace hbody⟩
  | false =>
    obtain ⟨-, close, rest₂, rfl, hclose⟩ := hend₁
    obtain rfl : rest₂ = used ++ rest := hused
    have hraw : upTo (p ++ brace :: (body ++ close :: (used ++ rest))) (used ++ rest) =
        p ++ brace :: (body ++ [close]) := by
      simpa using upTo_append (p ++ brace :: (body ++ [close])) (used ++ rest)
    rw [List.drop_one, List.tail_cons, hraw]
    exact ⟨cut, p ++ brace :: (body ++ close :: used), by simp, hend,
      .block hstart hpass hbrace hbody hclose hreads⟩

section

variable {fuel : Nat} (ih : ∀ {nested : Bool} {ts rest : List Token} {items : Items},
  ts.length < fuel → parseItems nested fuel ts = .ok (items, rest) →
    ReadsUpTo nested ts rest items)

include ih

/-- One statement that a token ends, and those behind it. -/
theorem readsUpTo_of_stops {nested : Bool} {p ts rest : List Token} {t : Token} {items : Items}
    (hstart : StartsStatement p) (hpass : passes [] p = some []) (hstop : t.Stops nested)
    (hatEnd : atEnd nested (p ++ t :: ts) = false) (hlen : (p ++ t :: ts).length ≤ fuel)
    (h : parseItems nested (fuel + 1) (p ++ t :: ts) = .ok (items, rest)) :
    ReadsUpTo nested (p ++ t :: ts) rest items := by
  rw [parseItems_of_stops hstart hpass hstop ts hatEnd] at h
  rw [List.length_append, List.length_cons] at hlen
  rcases hstop with hk | hk | ⟨rfl, hk⟩
  · simp only [hk] at h
    obtain ⟨⟨items', rest'⟩, hitems, h⟩ := bind_eq_ok_iff.1 h
    obtain ⟨rfl, rfl⟩ := Prod.mk.inj (Except.ok.inj h)
    obtain ⟨cut, used, rfl, hend, hreads⟩ := ih (by omega) hitems
    exact ⟨cut, p ++ t :: used, by simp, hend, .semicolon hstart hpass hk hreads⟩
  · simp only [hk] at h
    obtain ⟨⟨inner, rest₁⟩, hinner, h⟩ := bind_eq_ok_iff.1 h
    obtain ⟨⟨items', rest'⟩, hitems, h⟩ := bind_eq_ok_iff.1 h
    obtain ⟨rfl, rfl⟩ := Prod.mk.inj (Except.ok.inj h)
    have hblock := ih (by omega) hinner
    have hlen₁ : (rest₁.drop 1).length < fuel := by
      obtain ⟨_, used, rfl, -⟩ := hblock
      rw [List.length_append] at hlen
      rw [List.length_drop]
      omega
    exact .block hstart hpass hk hblock (ih hlen₁ hitems)
  · have hne : p ≠ [] := by
      rintro rfl
      simp [atEnd, hk] at hatEnd
    simp only [hk] at h
    obtain ⟨rfl, rfl⟩ := Prod.mk.inj (Except.ok.inj h)
    obtain ⟨u, p, rfl⟩ := List.exists_cons_of_ne_nil hne
    exact ⟨false, u :: p, rfl, ⟨rfl, t, ts, rfl, hk⟩, .last hne hstart hpass (.inl rfl)⟩

/-- One statement, and those behind it. -/
theorem readsUpTo_of_startsStatement {nested : Bool} {ts rest : List Token} {items : Items}
    (hstart : StartsStatement ts) (hlen : ts.length ≤ fuel)
    (h : parseItems nested (fuel + 1) ts = .ok (items, rest)) :
    ReadsUpTo nested ts rest items := by
  cases hatEnd : atEnd nested ts with
  | true =>
    rw [parseItems, dropTrivia_of_startsStatement hstart, hatEnd] at h
    obtain ⟨rfl, rfl⟩ := Prod.mk.inj (Except.ok.inj h)
    exact readsUpTo_of_atEnd hatEnd
  | false =>
    have hparse := h
    rw [parseItems, dropTrivia_of_startsStatement hstart, hatEnd] at h
    simp only [Bool.false_eq_true, if_false] at h
    obtain ⟨⟨p, r⟩, htake, h⟩ := bind_eq_ok_iff.1 h
    obtain ⟨rfl, o, hpass, hr⟩ := takePrelude_eq_ok_iff.1 htake
    have hp := hstart.of_append
    cases r with
    | nil =>
      simp only [List.append_nil] at h hatEnd ⊢
      obtain ⟨rfl, rfl⟩ := Prod.mk.inj (Except.ok.inj h)
      have hne : p ≠ [] := by
        rintro rfl
        exact absurd hatEnd (by simp [atEnd])
      exact ⟨true, p, (List.append_nil p).symm, rfl, .last hne hp hpass (.inr rfl)⟩
    | cons t r =>
      obtain ⟨rfl, t', r', ht', hstop⟩ := hr.resolve_left (List.cons_ne_nil _ _)
      obtain ⟨rfl, rfl⟩ := List.cons.inj ht'
      exact readsUpTo_of_stops ih hp hpass hstop hatEnd hlen hparse

end

theorem parseItems_dropTrivia (nested : Bool) (fuel : Nat) (ts : List Token) :
    parseItems nested (fuel + 1) (dropTrivia ts) = parseItems nested (fuel + 1) ts := by
  rw [parseItems, parseItems, dropTrivia_of_startsStatement (startsStatement_dropTrivia ts)]

/-- What the parser reads is read by the rules. -/
theorem readsUpTo_of_parseItems {nested : Bool} {fuel : Nat} {ts rest : List Token}
    {items : Items} (hfuel : ts.length < fuel)
    (h : parseItems nested fuel ts = .ok (items, rest)) : ReadsUpTo nested ts rest items := by
  induction fuel generalizing nested ts items rest with
  | zero => omega
  | succ fuel ih =>
    have hts : ts.takeWhile Token.isTrivia ++ dropTrivia ts = ts :=
      List.takeWhile_append_dropWhile
    have hlen : (dropTrivia ts).length ≤ fuel := by
      have hwhole := congrArg List.length hts
      rw [List.length_append] at hwhole
      omega
    rw [← parseItems_dropTrivia] at h
    have hreads := readsUpTo_of_startsStatement ih (startsStatement_dropTrivia ts) hlen h
    have hwhole := hreads.append_trivia (a := ts.takeWhile Token.isTrivia)
      fun t ht => List.mem_takeWhile_imp ht
    rw [hts] at hwhole
    exact hwhole

/-- The parser at a statement that the input ends. -/
theorem parseItems_of_passes {p : List Token} {o : List Bracket} (hne : p ≠ [])
    (hstart : StartsStatement p) (hpass : passes [] p = some o) (nested : Bool) (fuel : Nat) :
    parseItems nested (fuel + 1) p =
      .ok (Items.consStatement (trimmedText p) (rawText p) (lineOf p) {}, []) := by
  have hatEnd := atEnd_append_of_passes hne hpass nested []
  have htake : takePrelude nested [] none (p ++ []) = .ok (p, []) :=
    takePrelude_append hpass (.inl rfl)
  rw [List.append_nil] at hatEnd htake
  rw [parseItems, dropTrivia_of_startsStatement hstart]
  simp only [hatEnd, htake, Bool.false_eq_true, if_false]
  rfl

/-- What the rules read is read by the parser. -/
theorem Reads.parseItems_eq {cut : Bool} {used : List Token} {items : Items}
    (h : Reads cut used items) {nested : Bool} {rest : List Token}
    (hend : EndsItems nested cut rest) {fuel : Nat} (hfuel : (used ++ rest).length < fuel) :
    parseItems nested fuel (used ++ rest) = .ok (items, rest) := by
  obtain ⟨fuel, rfl⟩ : ∃ f, fuel = f + 1 := ⟨fuel - 1, by omega⟩
  induction h generalizing nested rest fuel with
  | done =>
    obtain ⟨hatEnd, hstart⟩ := hend.atEnd_eq
    rw [List.nil_append, parseItems, dropTrivia_of_startsStatement hstart, hatEnd]
    rfl
  | @trivia cut t ts items ht h ih =>
    have hdrop : dropTrivia (t :: ts ++ rest) = dropTrivia (ts ++ rest) := by
      simp [dropTrivia, ht]
    have hlen : (ts ++ rest).length < fuel + 1 := by
      rw [List.cons_append, List.length_cons] at hfuel
      omega
    have hread := ih hend fuel hlen
    rw [parseItems] at hread ⊢
    rw [hdrop]
    exact hread
  | @last cut p o hne hstart hpass ho =>
    cases cut with
    | true =>
      obtain rfl := hend
      rw [List.append_nil]
      exact parseItems_of_passes hne hstart hpass nested fuel
    | false =>
      have hatEnd := atEnd_append_of_passes hne hpass nested rest
      obtain ⟨rfl, t, ts, rfl, hk⟩ := hend
      obtain rfl := ho.resolve_right (by simp)
      obtain ⟨u, p, rfl⟩ := List.exists_cons_of_ne_nil hne
      rw [parseItems_of_stops hstart hpass (.inr (.inr ⟨rfl, hk⟩)) ts hatEnd]
      simp only [hk]
      rfl
  | @semicolon cut p ts s items hstart hpass hs h ih =>
    have hlen : (ts ++ rest).length < fuel := by
      simp only [List.length_append, List.length_cons] at hfuel ⊢
      omega
    obtain ⟨fuel, rfl⟩ : ∃ f, fuel = f + 1 := ⟨fuel - 1, by omega⟩
    have hatEnd := atEnd_append_cons hpass (t := s) (by simp [hs]) nested (ts ++ rest)
    rw [List.append_assoc, List.cons_append,
      parseItems_of_stops hstart hpass (.inl hs) (ts ++ rest) hatEnd]
    simp only [hs, ih hend fuel hlen]
    rfl
  | @block cut p body ts brace close inner items hstart hpass hbrace hbody hclose h ihbody ih =>
    have hlen : (body ++ close :: (ts ++ rest)).length < fuel := by
      simp only [List.length_append, List.length_cons] at hfuel ⊢
      omega
    have hlen' : (ts ++ rest).length < fuel := by
      simp only [List.length_append, List.length_cons] at hlen ⊢
      omega
    obtain ⟨fuel, rfl⟩ : ∃ f, fuel = f + 1 := ⟨fuel - 1, by omega⟩
    have hatEnd := atEnd_append_cons hpass (t := brace) (by simp [hbrace]) nested
      (body ++ close :: (ts ++ rest))
    have hinner := ihbody ⟨rfl, close, ts ++ rest, rfl, hclose⟩ fuel hlen
    have hraw : upTo (p ++ brace :: (body ++ close :: (ts ++ rest))) (ts ++ rest) =
        p ++ brace :: (body ++ [close]) := by
      simpa using upTo_append (p ++ brace :: (body ++ [close])) (ts ++ rest)
    rw [List.append_assoc, List.cons_append, List.append_assoc, List.cons_append,
      parseItems_of_stops hstart hpass (.inr (.inl hbrace)) _ hatEnd]
    simp only [hbrace, hinner, ih hend fuel hlen', bind, Except.bind, List.drop_one, List.tail_cons,
      hraw]
    rfl
  | @cutBlock p body brace inner hstart hpass hbrace hbody ih =>
    obtain rfl := hend
    have hlen : (body ++ []).length < fuel := by
      simp only [List.length_append, List.length_cons] at hfuel ⊢
      omega
    obtain ⟨fuel, rfl⟩ : ∃ f, fuel = f + 1 := ⟨fuel - 1, by omega⟩
    have hatEnd := atEnd_append_cons hpass (t := brace) (by simp [hbrace]) nested body
    have hinner : parseItems true (fuel + 1) (body ++ []) = .ok (inner, []) := ih rfl fuel hlen
    have hraw : upTo (p ++ brace :: body) [] = p ++ brace :: body := by
      simpa using upTo_append (p ++ brace :: body) []
    rw [List.append_nil] at hinner ⊢
    rw [parseItems_of_stops hstart hpass (.inr (.inl hbrace)) _ hatEnd]
    simp only [hbrace, hinner, bind, Except.bind, List.drop_nil, parseItems_nil, hraw]
    rfl

/-- **The parser and the rules agree**: the parser stops at `rest` with `items` exactly if the
tokens in front of `rest` read `items` and a block or the input ends there. -/
theorem parseItems_eq_ok_iff {nested : Bool} {fuel : Nat} {ts rest : List Token} {items : Items}
    (hfuel : ts.length < fuel) :
    parseItems nested fuel ts = .ok (items, rest) ↔
      ReadsUpTo nested ts rest items := by
  constructor
  · exact readsUpTo_of_parseItems hfuel
  · rintro ⟨cut, used, rfl, hend, h⟩
    exact h.parseItems_eq hend hfuel

/-- A stylesheet holds the statements that its tokens read. -/
theorem parse_eq_ok_iff {css : String} {sheet : Sheet} :
    Sheet.parse css = .ok sheet ↔
      ∃ items, Reads true (tokens (Text.dropMark css.toList)) items ∧ sheet.nodes = items.nodes := by
  rw [Sheet.parse, bind_eq_ok_iff]
  constructor
  · rintro ⟨⟨items, rest⟩, hitems, h⟩
    obtain rfl := Except.ok.inj h
    obtain ⟨cut, used, hts, hend, hreads⟩ :=
      (parseItems_eq_ok_iff (Nat.lt_succ_self _)).1 hitems
    cases cut with
    | true =>
      obtain rfl := hend
      rw [List.append_nil] at hts
      exact ⟨items, hts ▸ hreads, rfl⟩
    | false => exact absurd hend.1 (by simp)
  · rintro ⟨items, hreads, hnodes⟩
    refine ⟨(items, []), ?_, ?_⟩
    · exact (parseItems_eq_ok_iff (Nat.lt_succ_self _)).2
        ⟨true, _, (List.append_nil _).symm, rfl, hreads⟩
    · show Except.ok (Sheet.mk items.nodes) = .ok sheet
      rw [← hnodes]

end GlyphTrim.Css
