import GlyphTrim.Proofs.Css.Token

/-!
# Tokens of a part of a text

A part of a text that begins where a token begins and ends with a semicolon or a closing brace
falls into the same tokens wherever it stands (`tokensFrom_slice`), apart from the places of the
tokens.
-/

namespace GlyphTrim.Css

/-! ## The same tokens at other places -/

/-- What a token is, with a number made of its line. -/
def Token.key (f : Nat → Nat) (t : Token) : Kind × List Char × Nat :=
  (t.kind, t.text, f (t.location.breaks + 1))

/-- The same tokens, on lines that `f` and `g` take to the same numbers. -/
def Same (f g : Nat → Nat) (ts us : List Token) : Prop := ts.map (·.key f) = us.map (·.key g)

variable {f g : Nat → Nat}

theorem same_nil : Same f g [] [] := rfl

theorem same_cons_iff {t u : Token} {ts us : List Token} :
    Same f g (t :: ts) (u :: us) ↔ t.key f = u.key g ∧ Same f g ts us := by
  rw [Same, List.map_cons, List.map_cons, List.cons.injEq, Same]

theorem Same.exists_cons {t : Token} {ts us : List Token} (h : Same f g (t :: ts) us) :
    ∃ u us', us = u :: us' ∧ t.key f = u.key g ∧ Same f g ts us' := by
  obtain ⟨u, us', rfl, hu, hus⟩ := List.map_eq_cons_iff.1 h.symm
  exact ⟨u, us', rfl, hu.symm, hus.symm⟩

theorem Same.exists_append {ts ts' us : List Token} (h : Same f g (ts ++ ts') us) :
    ∃ us₁ us₂, us = us₁ ++ us₂ ∧ Same f g ts us₁ ∧ Same f g ts' us₂ := by
  have h' : us.map (·.key g) = ts.map (·.key f) ++ ts'.map (·.key f) := by
    rw [← List.map_append]
    exact h.symm
  obtain ⟨us₁, us₂, rfl, h₁, h₂⟩ := List.map_eq_append_iff.1 h'
  exact ⟨us₁, us₂, rfl, h₁.symm, h₂.symm⟩

theorem Same.append {ts ts' us us' : List Token} (h : Same f g ts us) (h' : Same f g ts' us') :
    Same f g (ts ++ ts') (us ++ us') := by
  rw [Same, List.map_append, List.map_append, h, h']

theorem Same.sourceText_eq {ts us : List Token} (h : Same f g ts us) :
    sourceText ts = sourceText us := by
  have htext := congrArg (List.map fun k : Kind × List Char × Nat => k.2.1) h
  rw [List.map_map, List.map_map] at htext
  rw [sourceText, sourceText, List.flatMap_def, List.flatMap_def]
  exact congrArg List.flatten htext

/-! ## Parts of a text -/

/-- The first token of a text, and those after it. -/
theorem tokensFrom_eq_cons_iff {l : Location} {c : Char} {cs : List Char} {t : Token}
    {ts : List Token} :
    tokensFrom l (c :: cs) = t :: ts ↔
      t = ⟨(read c cs).1, c :: cs.take (read c cs).2, l⟩ ∧
        ts = tokensFrom (l.advance (c :: cs.take (read c cs).2)) (cs.drop (read c cs).2) := by
  rw [tokensFrom, List.cons.injEq]
  constructor
  · rintro ⟨rfl, rfl⟩
    exact ⟨rfl, rfl⟩
  · rintro ⟨rfl, rfl⟩
    exact ⟨rfl, rfl⟩

theorem tokensFrom_cons (l : Location) (c : Char) (cs : List Char) :
    tokensFrom l (c :: cs) = ⟨(read c cs).1, c :: cs.take (read c cs).2, l⟩ ::
      tokensFrom (l.advance (c :: cs.take (read c cs).2)) (cs.drop (read c cs).2) :=
  tokensFrom_eq_cons_iff.2 ⟨rfl, rfl⟩

/-- The tokens behind others are those of their text. -/
theorem exists_tokensFrom_of_append {l : Location} {cs : List Char} {ts us : List Token}
    (h : tokensFrom l cs = ts ++ us) : ∃ l', us = tokensFrom l' (sourceText us) := by
  induction ts generalizing l cs with
  | nil =>
    refine ⟨l, ?_⟩
    obtain rfl : tokensFrom l cs = us := h
    rw [sourceText_tokensFrom]
  | cons t ts ih =>
    cases cs with
    | nil => simp [tokensFrom] at h
    | cons c cs => exact ih (tokensFrom_eq_cons_iff.1 h).2.symm

/-- The tokens are the first tokens of a text. -/
def Lexed (ts : List Token) : Prop := ∃ l cs us, tokensFrom l cs = ts ++ us

theorem lexed_tokensFrom (l : Location) (cs : List Char) : Lexed (tokensFrom l cs) :=
  ⟨l, cs, [], (List.append_nil _).symm⟩

theorem Lexed.marked {ts : List Token} (h : Lexed ts) : Marked ts := by
  obtain ⟨l, cs, us, htokens⟩ := h
  have hmarks := marked_tokensFrom l cs
  rw [htokens] at hmarks
  exact hmarks.of_infix (List.prefix_append ts us).isInfix

/-- A text can be cut between two tokens. -/
theorem Lexed.of_infix {ts us : List Token} (h : Lexed us) (hts : ts <:+: us) : Lexed ts := by
  obtain ⟨l, cs, rest, htokens⟩ := h
  obtain ⟨a, b, rfl⟩ := hts
  rw [List.append_assoc, List.append_assoc] at htokens
  obtain ⟨l', hrest⟩ := exists_tokensFrom_of_append htokens
  exact ⟨l', _, b ++ rest, hrest.symm⟩

/-- What is read at a mark. -/
theorem exists_read_eq {b : Char} (hb : IsStop b) : ∃ k, ∀ cs, read b cs = (k, 0) := by
  obtain rfl | rfl := hb
  · exact ⟨.semicolon, fun cs => rfl⟩
  · exact ⟨.closing .curly, fun cs => rfl⟩

/-- The line breaks of a text: line feeds, form feeds and carriage returns, where a carriage return
and a line feed are one. -/
def lineBreaks : List Char → Nat
  | [] => 0
  | '\r' :: '\n' :: cs => lineBreaks cs + 1
  | c :: cs => (if isBreak c then 1 else 0) + lineBreaks cs

/-- The line of a place is told by the line breaks in front of it. -/
theorem breaks_advance (l : Location) (cs : List Char) :
    (l.advance cs).breaks = l.breaks + lineBreaks cs := by
  induction cs using lineBreaks.induct generalizing l with
  | case1 => rfl
  | case2 cs ih =>
    rw [Location.advance, lineBreaks, ih]
    simp only
    omega
  | case3 c cs hnot ih =>
    rw [Location.advance, lineBreaks]
    · split_ifs
      · rw [ih, Nat.add_assoc]
      · rw [ih, Nat.zero_add]
    · exact hnot
    · exact hnot

/-- Lines that correspond also do so behind a text. -/
theorem forall_breaks_advance {l l' : Location}
    (h : ∀ n, f (l.breaks + n + 1) = g (l'.breaks + n + 1)) (cs : List Char) (n : Nat) :
    f ((l.advance cs).breaks + n + 1) = g ((l'.advance cs).breaks + n + 1) := by
  rw [breaks_advance, breaks_advance, Nat.add_assoc l.breaks, Nat.add_assoc l'.breaks]
  exact h (lineBreaks cs + n)

/-- A token in front of a mark stays the first token whatever stands behind the mark. -/
theorem tokensFrom_append_of_drop_eq {b c : Char} (hb : IsStop b) {cs w y : List Char}
    (hdrop : cs.drop (read c cs).2 = w ++ b :: y) (l : Location) (z : List Char) :
    tokensFrom l (c :: (cs.take (read c cs).2 ++ (w ++ b :: z))) =
      ⟨(read c cs).1, c :: cs.take (read c cs).2, l⟩ ::
        tokensFrom (l.advance (c :: cs.take (read c cs).2)) (w ++ b :: z) := by
  generalize hn : (read c cs).2 = n at *
  have hlen : (cs.take n).length = n := by
    have hpos := congrArg List.length hdrop
    simp only [List.length_drop, List.length_append, List.length_cons] at hpos
    rw [List.length_take]
    omega
  have hcs : cs = (cs.take n ++ w) ++ b :: y := by
    rw [List.append_assoc, ← hdrop, List.take_append_drop]
  have hread : read c ((cs.take n ++ w) ++ b :: z) = read c cs := by
    have hle : (read c ((cs.take n ++ w) ++ b :: y)).2 ≤ (cs.take n ++ w).length := by
      rw [← hcs, hn, List.length_append, hlen]
      omega
    have hsettled := settledWithin_read hb c _ _ z hle
    rw [← hcs] at hsettled
    exact hsettled
  rw [List.append_assoc] at hread
  rw [tokensFrom_eq_cons_iff, hread, hn, List.take_left' hlen, List.drop_left' hlen]
  exact ⟨rfl, rfl⟩

/-- **A part of a text that a mark ends** falls into the same tokens wherever it stands. -/
theorem tokensFrom_slice {l l' : Location} {cs : List Char} {p ts : List Token} {m : Token}
    {b : Char} (h : tokensFrom l cs = p ++ m :: ts) (hm : m.kind.mark? = some b) (hb : IsStop b)
    (hl : ∀ n, f (l.breaks + n + 1) = g (l'.breaks + n + 1)) (z : List Char) :
    ∃ q l'', tokensFrom l' (sourceText (p ++ [m]) ++ z) = q ++ tokensFrom l'' z ∧
      Same f g (p ++ [m]) q := by
  have hmark : m.text = [b] := text_of_mem_tokensFrom (by rw [h]; simp) hm
  have hsource : ∀ (p : List Token) (z : List Char),
      sourceText (p ++ [m]) ++ z = sourceText p ++ b :: z := by
    intro p z
    rw [sourceText_append, sourceText_cons, hmark]
    simp [sourceText]
  induction p generalizing l l' cs with
  | nil =>
    cases cs with
    | nil => simp [tokensFrom] at h
    | cons c cs =>
      obtain ⟨rfl, -⟩ := tokensFrom_eq_cons_iff.1 h
      obtain ⟨rfl, hn⟩ := read_mark hm
      obtain ⟨k, hread⟩ := exists_read_eq hb
      have hz : tokensFrom l' (c :: z) = _ :: _ := tokensFrom_eq_cons_iff.2 ⟨rfl, rfl⟩
      simp only [hread, List.take_zero, List.drop_zero, List.nil_append] at hz ⊢
      refine ⟨[⟨k, [c], l'⟩], l'.advance [c], ?_, ?_⟩
      · rw [sourceText_cons]
        exact hz
      · refine same_cons_iff.2 ⟨?_, same_nil⟩
        simp only [Token.key, Prod.mk.injEq, true_and]
        exact hl 0
  | cons t p ih =>
    cases cs with
    | nil => simp [tokensFrom] at h
    | cons c cs =>
      rw [List.cons_append] at h
      obtain ⟨rfl, hrest⟩ := tokensFrom_eq_cons_iff.1 h
      have hdrop : cs.drop (read c cs).2 = sourceText p ++ b :: sourceText ts := by
        have htext := congrArg sourceText hrest
        rw [sourceText_tokensFrom, sourceText_append, sourceText_cons, hmark] at htext
        exact htext.symm
      have htokens := tokensFrom_append_of_drop_eq hb hdrop l' z
      obtain ⟨q, l'', hq, hsame⟩ := ih hrest.symm (forall_breaks_advance hl _)
      rw [hsource] at hq
      rw [hq] at htokens
      refine ⟨⟨(read c cs).1, c :: cs.take (read c cs).2, l'⟩ :: q, l'', ?_,
        same_cons_iff.2 ⟨?_, hsame⟩⟩
      · rw [hsource, sourceText_cons, List.append_assoc]
        exact htokens
      · simp only [Token.key, Prod.mk.injEq, true_and]
        exact hl 0

/-! ## Comments -/

/-- The text of a comment. -/
def commentText (body : List Char) : List Char := '/' :: '*' :: (body ++ ['*', '/'])

theorem read_of_slash (cs : List Char) : read '/' ('*' :: cs) = (.comment, commentLength cs + 1) :=
  rfl

theorem tokensFrom_commentText {body : List Char} (h : ¬['*', '/'] <:+: body) (l : Location)
    (z : List Char) :
    ∃ l', tokensFrom l (commentText body ++ z) =
      ⟨.comment, commentText body, l⟩ :: tokensFrom l' z := by
  have hrest : '*' :: (body ++ ['*', '/']) ++ z = '*' :: (body ++ '*' :: '/' :: z) := by simp
  have hread : read '/' ('*' :: (body ++ '*' :: '/' :: z)) = (.comment, body.length + 3) := by
    rw [read_of_slash, commentLength_append h]
  have hlen : ('*' :: (body ++ ['*', '/'])).length = body.length + 3 := by simp
  refine ⟨l.advance (commentText body), ?_⟩
  rw [commentText, List.cons_append, tokensFrom_cons, hrest, hread, ← hrest, List.take_left' hlen,
    List.drop_left' hlen]

end GlyphTrim.Css
