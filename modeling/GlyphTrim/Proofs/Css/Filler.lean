import GlyphTrim.Proofs.Css.Layout

/-!
# What stands between nodes

Some parts of a stylesheet make no nodes: white space, comments, and statements that are neither
blocks nor at-rules. They are the same tokens when they are cut out of the stylesheet
(`Filler.tokens_sourceText`).
-/

namespace GlyphTrim.Css

/-- White space, comments, and statements without a block that are no at-rules. With `cut` the text
may end inside the last statement. -/
inductive Filler : Bool → List Token → Prop
  | nil {cut : Bool} : Filler cut []
  | trivia {cut : Bool} {t : Token} {ts : List Token} (ht : t.isTrivia = true)
      (h : Filler cut ts) : Filler cut (t :: ts)
  | statement {cut : Bool} {p ts : List Token} {s : Token} (hstart : StartsStatement p)
      (hpass : passes [] p = some []) (hname : (trimmedText p).toList.head? ≠ some '@')
      (hs : s.kind = .semicolon) (h : Filler cut ts) : Filler cut (p ++ s :: ts)
  | last {p : List Token} {o : List Bracket} (hstart : StartsStatement p)
      (hpass : passes [] p = some o) (hname : (trimmedText p).toList.head? ≠ some '@') :
      Filler true p

section

variable {cut : Bool} {ts us : List Token}

theorem Filler.append (h : Filler false ts) (h' : Filler cut us) : Filler cut (ts ++ us) := by
  generalize hcut : false = cut' at h
  induction h with
  | nil => exact h'
  | trivia ht h ih => exact .trivia ht (ih hcut)
  | statement hstart hpass hname hs h ih =>
    rw [List.append_assoc, List.cons_append]
    exact .statement hstart hpass hname hs (ih hcut)
  | last hstart hpass hname => exact absurd hcut (by simp)

theorem Filler.of_same {f g : Nat → Nat} (h : Filler cut ts) (hsame : Same f g ts us) :
    Filler cut us := by
  induction h generalizing us with
  | nil =>
    obtain rfl := List.map_eq_nil_iff.1 hsame.symm
    exact .nil
  | trivia ht h ih =>
    obtain ⟨u, us, rfl, hu, hus⟩ := hsame.exists_cons
    rw [isTrivia_eq_of_key_eq hu] at ht
    exact .trivia ht (ih hus)
  | statement hstart hpass hname hs h ih =>
    obtain ⟨q, us', rfl, hq, hus'⟩ := hsame.exists_append
    obtain ⟨u, us, rfl, hu, hus⟩ := hus'.exists_cons
    rw [hq.passes_eq] at hpass
    rw [hq.trimmedText_eq] at hname
    rw [kind_eq_of_key_eq hu] at hs
    exact .statement (hq.startsStatement hstart) hpass hname hs (ih hus)
  | last hstart hpass hname =>
    rw [hsame.passes_eq] at hpass
    rw [hsame.trimmedText_eq] at hname
    exact .last (hsame.startsStatement hstart) hpass hname

/-- Behind the last semicolon of a filler stand white space and comments. -/
theorem Filler.exists_append (h : Filler false ts) : ∃ a b, ts = a ++ b ∧ EndsStatement a ∧
    ∀ t ∈ b, t.isTrivia = true := by
  generalize hcut : false = cut at h
  induction h with
  | nil => exact ⟨[], [], rfl, fun t ht => absurd ht (by simp), by simp⟩
  | @trivia cut t ts ht h ih =>
    obtain ⟨a, b, rfl, hend, hb⟩ := ih hcut
    cases a with
    | nil => exact ⟨[], t :: b, rfl, hend, List.forall_mem_cons.2 ⟨ht, hb⟩⟩
    | cons u a =>
      refine ⟨t :: u :: a, b, rfl, fun v hv => hend v ?_, hb⟩
      rwa [List.getLast?_cons_cons] at hv
  | @statement cut p ts s hstart hpass hname hs h ih =>
    obtain ⟨a, b, rfl, hend, hb⟩ := ih hcut
    refine ⟨p ++ s :: a, b, by simp, ?_, hb⟩
    cases a with
    | nil => exact endsStatement_concat (.inl hs)
    | cons u a =>
      intro v hv
      rw [List.getLast?_append_of_ne_nil p (List.cons_ne_nil s _), List.getLast?_cons_cons] at hv
      exact hend v hv
  | last hstart hpass hname => exact absurd hcut (by simp)

end

/-! ## White space and comments without what stands behind them -/

theorem takeWhile_of_length_le {p : Char → Bool} {a z : List Char}
    (h : ((a ++ z).takeWhile p).length ≤ a.length) : a.takeWhile p = (a ++ z).takeWhile p := by
  rw [List.takeWhile_append] at h ⊢
  split_ifs at h ⊢ with hall
  · have hz : z.takeWhile p = [] := by
      rw [List.length_append] at h
      exact List.length_eq_zero_iff.1 (by omega)
    rw [hz, List.append_nil, (List.takeWhile_prefix p).eq_of_length hall]
  · rfl

theorem commentLength_of_le {a z : List Char} (h : commentLength (a ++ z) ≤ a.length) :
    commentLength a = commentLength (a ++ z) := by
  induction a with
  | nil => exact (Nat.le_zero.1 h).symm
  | cons c a ih =>
    rw [List.cons_append] at h ⊢
    by_cases hclose : c = '*' ∧ (a ++ z).head? = some '/'
    · obtain ⟨rfl, hhead⟩ := hclose
      cases a with
      | nil =>
        obtain ⟨z, rfl⟩ := List.head?_eq_some_iff.1 hhead
        exact absurd h (by simp [commentLength])
      | cons d a =>
        obtain rfl : d = '/' := Option.some.inj hhead
        rfl
    · have hclose' : ¬(c = '*' ∧ a.head? = some '/') := by
        rintro ⟨rfl, hhead⟩
        obtain ⟨a, rfl⟩ := List.head?_eq_some_iff.1 hhead
        exact hclose ⟨rfl, rfl⟩
      rw [commentLength_cons hclose] at h ⊢
      rw [commentLength_cons hclose', ih (Nat.le_of_succ_le_succ h)]

/-- White space and comments. -/
def Kind.IsTrivia : Kind → Prop
  | .space | .comment => True
  | _ => False

theorem Token.isTrivia_iff {t : Token} : t.isTrivia = true ↔ t.kind.IsTrivia := by
  rw [Token.isTrivia]
  cases t.kind <;> simp [Kind.IsTrivia]

theorem not_isTrivia_readString (quote : Char) (cs : List Char) :
    ¬(readString quote cs).1.IsTrivia := by
  unfold readString
  simp only
  split <;> exact False.elim

theorem not_isTrivia_readName (c : Char) (cs : List Char) : ¬(readName c cs).1.IsTrivia := by
  unfold readName
  simp only
  split
  · split
    · split
      · rename_i kind more h
        rcases readUrl_kind h with rfl | ⟨contents, rfl⟩ <;> exact False.elim
      · exact False.elim
    · exact False.elim
  · exact False.elim

/-- White space and comments can be told from their first two characters. -/
theorem isSpace_or_of_isTrivia {c : Char} {cs : List Char} (h : (read c cs).1.IsTrivia) :
    isSpace c = true ∨ c = '/' ∧ cs.head? = some '*' := by
  have hname := not_isTrivia_readName c cs
  have hstring := not_isTrivia_readString c cs
  have hcomment : (c == '/' && cs.head? == some '*') = true → c = '/' ∧ cs.head? = some '*' := by
    simp
  revert h
  unfold read
  -- one goal for each way a token can begin
  repeat' first
    | refine iteInduction (motive := fun r : Kind × Nat => r.1.IsTrivia → isSpace c = true ∨
        c = '/' ∧ cs.head? = some '*') (fun hc => ?_) fun _ => ?_
    | exact fun h => absurd h hname
    | exact fun h => absurd h hstring
    | exact fun _ => .inl hc
    | exact fun _ => .inr (hcomment hc)
    | exact False.elim
  -- what follows a hash
  cases cs with
  | nil => exact False.elim
  | cons d cs =>
    refine iteInduction (motive := fun r : Kind × Nat => r.1.IsTrivia → isSpace c = true ∨
      c = '/' ∧ (d :: cs).head? = some '*') (fun _ => ?_) fun _ => ?_ <;>
        exact False.elim

theorem commentLength_le_length (cs : List Char) : commentLength cs ≤ cs.length := by
  induction cs using commentLength.induct with
  | case1 => exact Nat.le_refl _
  | case2 cs => simp [commentLength]
  | case3 c cs h ih =>
    rw [commentLength]
    · exact Nat.succ_le_succ ih
    · exact h

theorem read_le_length_of_isTrivia {c : Char} {cs : List Char} (h : (read c cs).1.IsTrivia) :
    (read c cs).2 ≤ cs.length := by
  rcases isSpace_or_of_isTrivia h with hspace | ⟨rfl, hhead⟩
  · rw [read_of_isSpace hspace]
    exact (List.takeWhile_prefix isSpace).length_le
  · obtain ⟨cs, rfl⟩ := List.head?_eq_some_iff.1 hhead
    rw [read_of_slash]
    exact Nat.succ_le_succ (commentLength_le_length cs)

/-- White space and comments are read the same if the text is cut behind them. -/
theorem read_of_isTrivia {c : Char} {a z : List Char} (h : (read c (a ++ z)).1.IsTrivia)
    (hle : (read c (a ++ z)).2 ≤ a.length) : read c a = read c (a ++ z) := by
  rcases isSpace_or_of_isTrivia h with hspace | ⟨rfl, hhead⟩
  · rw [read_of_isSpace hspace] at hle ⊢
    rw [read_of_isSpace hspace, takeWhile_of_length_le hle]
  · obtain ⟨cs, hcs⟩ := List.head?_eq_some_iff.1 hhead
    rw [hcs, read_of_slash] at hle
    cases a with
    | nil => exact absurd hle (by simp)
    | cons d a =>
      obtain ⟨rfl, rfl⟩ := List.cons.inj hcs
      rw [List.cons_append, read_of_slash, read_of_slash,
        commentLength_of_le (Nat.le_of_succ_le_succ hle)]

/-- White space and comments are read again without what stands behind them. -/
theorem tokensFrom_sourceText_of_trivia {l : Location} {cs : List Char} {ts us : List Token}
    (h : tokensFrom l cs = ts ++ us) (hts : ∀ t ∈ ts, t.isTrivia = true) :
    tokensFrom l (sourceText ts) = ts := by
  induction ts generalizing l cs with
  | nil => rw [sourceText, List.flatMap_nil, tokensFrom]
  | cons t ts ih =>
    cases cs with
    | nil => exact absurd h (by simp [tokensFrom])
    | cons c cs =>
      obtain ⟨ht, htail⟩ := List.forall_mem_cons.1 hts
      rw [List.cons_append] at h
      obtain ⟨rfl, hrest⟩ := tokensFrom_eq_cons_iff.1 h
      have hkind : (read c cs).1.IsTrivia := Token.isTrivia_iff.1 ht
      have hlen := List.length_take_of_le (read_le_length_of_isTrivia hkind)
      have hcs : cs = (cs.take (read c cs).2 ++ sourceText ts) ++ sourceText us := by
        rw [List.append_assoc, ← sourceText_append, hrest, sourceText_tokensFrom,
          List.take_append_drop]
      have hread : read c (cs.take (read c cs).2 ++ sourceText ts) = read c cs := by
        have hle : (read c cs).2 ≤ (cs.take (read c cs).2 ++ sourceText ts).length := by
          rw [List.length_append, hlen]
          exact Nat.le_add_right _ _
        generalize (cs.take (read c cs).2 ++ sourceText ts) = a at *
        subst hcs
        exact read_of_isTrivia hkind hle
      rw [sourceText_cons, List.cons_append, tokensFrom_cons, hread, List.take_left' hlen,
        List.drop_left' hlen, ih hrest.symm htail]

/-! ## Fillers without what stands around them -/

/-- **Fillers** are the same tokens when they are cut out of a text. -/
theorem Filler.tokens_sourceText {ts : List Token} (h : Filler false ts) (hlexed : Lexed ts) :
    Filler false (tokens (sourceText ts)) := by
  obtain ⟨a, b, rfl, hend, hb⟩ := h.exists_append
  obtain ⟨us, l, htokens, hsame⟩ :=
    (hlexed.of_infix (List.prefix_append a b).isInfix).exists_tokens_append hend (sourceText b)
  obtain ⟨l', cs, vs, hcs⟩ := hlexed.of_infix (List.suffix_append a b).isInfix
  have hsame' := same_tokensFrom l' l (sourceText b)
  rw [tokensFrom_sourceText_of_trivia hcs hb] at hsame'
  rw [sourceText_append, htokens]
  exact h.of_same (hsame.append hsame')

/-- The same holds for what stands at the end of a text. -/
theorem Filler.tokens_sourceText_of_suffix {cut : Bool} {cs : List Char} {ts : List Token}
    (h : Filler cut ts) (hts : ts <:+ tokens cs) : Filler cut (tokens (sourceText ts)) := by
  obtain ⟨ps, hps⟩ := hts
  obtain ⟨l, hl⟩ := exists_tokensFrom_of_append hps.symm
  have hsame := same_tokensFrom l ⟨0, 0⟩ (sourceText ts)
  rw [← hl] at hsame
  exact h.of_same hsame

end GlyphTrim.Css
