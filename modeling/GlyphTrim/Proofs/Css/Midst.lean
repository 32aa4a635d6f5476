import GlyphTrim.Proofs.Css.Reading

/-!
# Places in a stylesheet

A place between two tokens lies in some blocks, and there between two statements or in the midst of
one. `midst ts` says where, from the tokens `ts` in front of the place: it holds the preludes of the
blocks around the place, and what stands in front of the place of a prelude that is not over there
(`midstIn_of_passes`). Whole statements in front of the place leave nothing
(`midstIn_append_semicolon`, `Reads.midstIn_append_close`).
-/

namespace GlyphTrim.Css

/-- Where a place is. -/
structure Midst where
  /-- The preludes of the blocks around the place, the innermost first. -/
  outer : List (List Token) := []
  /-- The part of a prelude in front of the place. Between two statements there is none. -/
  front : List Token := []
  /-- The brackets that are open in it. -/
  open_ : List Bracket := []

/-- The place behind one more token. A mark that the prelude cannot go over ends the prelude. -/
def Midst.step (m : Midst) (t : Token) : Midst :=
  if m.front.isEmpty && t.isTrivia then m
  else
    match passToken t m.open_, t.kind with
    | some o, _ => ⟨m.outer, m.front ++ [t], o⟩
    | none, .opening .curly => ⟨m.front :: m.outer, [], []⟩
    | none, .closing .curly => ⟨m.outer.tail, [], []⟩
    | none, _ => ⟨m.outer, [], []⟩

/-- The place behind tokens that begin in the blocks with the preludes `outer`. -/
def midstIn (outer : List (List Token)) (ts : List Token) : Midst :=
  ts.foldl Midst.step ⟨outer, [], []⟩

/-- The place behind tokens. -/
def midst (ts : List Token) : Midst := midstIn [] ts

variable {outer : List (List Token)} {p : List Token} {t : Token}

theorem midstIn_cons_trivia (ht : t.isTrivia = true) (ts : List Token) :
    midstIn outer (t :: ts) = midstIn outer ts := by
  have hstep : Midst.step ⟨outer, [], []⟩ t = ⟨outer, [], []⟩ := by simp [Midst.step, ht]
  rw [midstIn, List.foldl_cons, hstep, midstIn]

theorem Midst.step_of_passToken {m : Midst} {o : List Bracket}
    (ht : m.front = [] → t.isTrivia = false) (h : passToken t m.open_ = some o) :
    m.step t = ⟨m.outer, m.front ++ [t], o⟩ := by
  have hstart : (m.front.isEmpty && t.isTrivia) = false := by
    cases hfront : m.front with
    | nil => simp [ht hfront]
    | cons u front => rfl
  simp only [step, hstart, h, Bool.false_eq_true, if_false]

theorem foldl_step_of_passes {m : Midst} {o : List Bracket}
    (hstart : m.front = [] → StartsStatement p) (h : passes m.open_ p = some o) :
    p.foldl Midst.step m = ⟨m.outer, m.front ++ p, o⟩ := by
  induction p generalizing m with
  | nil =>
    obtain rfl := Option.some.inj h
    rw [List.append_nil]
    rfl
  | cons t p ih =>
    obtain ⟨o₁, ht, hp⟩ := passes_cons_eq_some_iff.1 h
    have hstep := Midst.step_of_passToken (fun hfront => hstart hfront t rfl) ht
    rw [List.foldl_cons, hstep, ih (by simp) hp, List.append_assoc, List.singleton_append]

/-- In the midst of a prelude. -/
theorem midstIn_of_passes {o : List Bracket} (hstart : StartsStatement p)
    (h : passes [] p = some o) : midstIn outer p = ⟨outer, p, o⟩ :=
  foldl_step_of_passes (fun _ => hstart) h

section

variable (hstart : StartsStatement p) (h : passes [] p = some [])

include hstart h

theorem midstIn_append_cons (ts : List Token) :
    midstIn outer (p ++ t :: ts) = ts.foldl Midst.step (Midst.step ⟨outer, p, []⟩ t) := by
  have hp : p.foldl Midst.step ⟨outer, [], []⟩ = ⟨outer, p, []⟩ := midstIn_of_passes hstart h
  rw [midstIn, List.foldl_append, hp, List.foldl_cons]

/-- Behind a statement without a block. -/
theorem midstIn_append_semicolon (ht : t.kind = .semicolon) (ts : List Token) :
    midstIn outer (p ++ t :: ts) = midstIn outer ts := by
  rw [midstIn_append_cons hstart h, midstIn]
  simp [Midst.step, passToken, Token.isTrivia, ht]

/-- Behind the brace that opens a block. -/
theorem midstIn_append_brace (ht : t.kind = .opening .curly) (ts : List Token) :
    midstIn outer (p ++ t :: ts) = midstIn (p :: outer) ts := by
  rw [midstIn_append_cons hstart h, midstIn]
  simp [Midst.step, passToken, Token.isTrivia, ht]

/-- Behind the brace that closes a block. -/
theorem midstIn_append_close (ht : t.kind = .closing .curly) (ts : List Token) :
    midstIn outer (p ++ t :: ts) = midstIn outer.tail ts := by
  rw [midstIn_append_cons hstart h, midstIn]
  simp [Midst.step, passToken, Token.isTrivia, ht]

end

/-- Behind the statements of a block and the brace that closes it. -/
theorem Reads.midstIn_append_close {body : List Token} {inner : Items}
    (h : Reads false body inner) {close : Token} (hclose : close.kind = .closing .curly)
    (ts : List Token) : midstIn outer (body ++ close :: ts) = midstIn outer.tail ts := by
  generalize hcut : false = cut at h
  induction h generalizing outer close ts with
  | done => exact Css.midstIn_append_close (p := []) (by simp [StartsStatement]) rfl hclose ts
  | trivia ht h ih =>
    rw [List.cons_append, midstIn_cons_trivia ht]
    exact ih hclose ts hcut
  | last hne hstart hpass ho =>
    obtain rfl := ho.resolve_right (by simp [← hcut])
    exact Css.midstIn_append_close hstart hpass hclose ts
  | semicolon hstart hpass hs h ih =>
    rw [List.append_assoc, List.cons_append, midstIn_append_semicolon hstart hpass hs]
    exact ih hclose ts hcut
  | block hstart hpass hbrace hbody hclose' h ihbody ih =>
    rw [List.append_assoc, List.cons_append, List.append_assoc, List.cons_append,
      midstIn_append_brace hstart hpass hbrace, ihbody hclose' _ rfl, List.tail_cons]
    exact ih hclose ts hcut
  | cutBlock hstart hpass hbrace hbody ih => exact absurd hcut (by simp)

end GlyphTrim.Css
