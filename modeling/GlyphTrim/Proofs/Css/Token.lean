import GlyphTrim.Proofs.Css.Scan

/-!
# The text of tokens

Tokens of most kinds have all sorts of texts, but a token of a mark is the mark alone
(`text_of_mem_tokensFrom`). A token that ends in front of a semicolon or a closing brace does not
depend on the text behind the mark (`settledWithin_read`).
-/

namespace GlyphTrim.Css

theorem sourceText_append (ts us : List Token) :
    sourceText (ts ++ us) = sourceText ts ++ sourceText us :=
  List.flatMap_append

theorem sourceText_cons (t : Token) (ts : List Token) :
    sourceText (t :: ts) = t.text ++ sourceText ts :=
  List.flatMap_cons

theorem text_ne_nil_of_mem {l : Location} {cs : List Char} {t : Token}
    (ht : t ∈ tokensFrom l cs) : t.text ≠ [] := by
  induction l, cs using tokensFrom.induct with
  | case1 => simp [tokensFrom] at ht
  | case2 l c cs kind n h text ih =>
    rw [tokensFrom] at ht
    simp only [h, List.mem_cons] at ht
    rcases ht with rfl | ht
    · exact List.cons_ne_nil _ _
    · exact ih ht

theorem sourceText_ne_nil {ts : List Token} (hne : ts ≠ []) (htexts : ∀ t ∈ ts, t.text ≠ []) :
    sourceText ts ≠ [] := by
  obtain ⟨t, ts, rfl⟩ := List.exists_cons_of_ne_nil hne
  rw [sourceText_cons]
  exact fun h => htexts t List.mem_cons_self (List.append_eq_nil_iff.1 h).1

/-- Fewer tokens have fewer characters. -/
theorem length_sourceText_lt {ts us : List Token} (hsuffix : us <:+ ts)
    (hlt : us.length < ts.length) (htexts : ∀ t ∈ ts, t.text ≠ []) :
    (sourceText us).length < (sourceText ts).length := by
  obtain ⟨p, rfl⟩ := hsuffix
  have hp : p ≠ [] := by
    rintro rfl
    exact absurd hlt (by simp)
  have htext := sourceText_ne_nil hp fun t ht => htexts t (List.mem_append_left us ht)
  rw [sourceText_append, List.length_append]
  exact Nat.lt_add_of_pos_left (List.length_pos_iff.2 htext)

theorem length_le_length_sourceText {ts : List Token} (htexts : ∀ t ∈ ts, t.text ≠ []) :
    ts.length ≤ (sourceText ts).length := by
  induction ts with
  | nil => exact Nat.zero_le _
  | cons t ts ih =>
    have ht := List.length_pos_iff.2 (htexts t List.mem_cons_self)
    have hts := ih fun u hu => htexts u (List.mem_cons_of_mem t hu)
    rw [sourceText_cons, List.length_append, List.length_cons]
    omega

/-- The character that tokens of a kind consist of, if there is one. -/
def Kind.mark? : Kind → Option Char
  | .semicolon => some ';'
  | .opening .square => some '['
  | .opening .curly => some '\x7b'
  | .closing b => some b.closing
  | _ => none

theorem readUrl_kind {cs : List Char} {kind : Kind} {n : Nat} (h : readUrl cs = some (kind, n)) :
    kind = .other ∨ ∃ contents, kind = .badUrl contents := by
  unfold readUrl at h
  simp only at h
  split at h
  · exact absurd h (by simp)
  · exact absurd h (by simp)
  · obtain ⟨rfl, -⟩ := Prod.mk.inj (Option.some.inj h)
    split
    · exact .inr ⟨_, rfl⟩
    · exact .inl rfl

theorem readName_of_not_round {c : Char} {cs : List Char}
    (h : ∀ d ∈ cs.drop (nameLength 0 (c :: cs) - 1) |>.head?, d ≠ '(') :
    readName c cs = (.other, nameLength 0 (c :: cs) - 1) := by
  unfold readName
  simp only
  split
  · rename_i rest hrest
    exact absurd rfl (h '(' (by rw [hrest]; rfl))
  · rfl

theorem mark?_readName (c : Char) (cs : List Char) : (readName c cs).1.mark? = none := by
  unfold readName
  simp only
  split
  · split
    · split
      · rename_i kind more h
        rcases readUrl_kind h with rfl | ⟨contents, rfl⟩ <;> rfl
      · rfl
    · rfl
  · rfl

theorem mark?_readString (q : Char) (cs : List Char) : (readString q cs).1.mark? = none := by
  unfold readString
  simp only
  split <;> rfl

/-- What `read` gives for a mark is the mark. -/
theorem read_mark {c m : Char} {cs : List Char} (h : (read c cs).1.mark? = some m) :
    c = m ∧ (read c cs).2 = 0 := by
  have hname := mark?_readName c cs
  have hstring := mark?_readString c cs
  revert h
  unfold read
  -- one goal for each way a token can begin; those of the marks are left
  repeat' first
    | exact fun h => absurd (hname.symm.trans h) nofun
    | exact fun h => absurd (hstring.symm.trans h) nofun
    | exact fun h => absurd h (Option.some_ne_none m).symm
    | exact fun h => ⟨(eq_of_beq hc).trans (Option.some.inj h), rfl⟩
    | refine iteInduction (motive := fun r : Kind × Nat => r.1.mark? = some m → c = m ∧ r.2 = 0)
        (fun hc => ?_) fun _ => ?_
  -- what follows a hash
  cases cs with
  | nil => exact fun h => absurd h (Option.some_ne_none m).symm
  | cons d cs =>
    refine iteInduction (motive := fun r : Kind × Nat => r.1.mark? = some m → c = m ∧ r.2 = 0)
      (fun _ => ?_) fun _ => ?_ <;> exact fun h => absurd h (Option.some_ne_none m).symm

/-- **A token of a mark** is the mark. -/
theorem text_of_mem_tokensFrom {l : Location} {cs : List Char} {t : Token} {m : Char}
    (ht : t ∈ tokensFrom l cs) (hm : t.kind.mark? = some m) : t.text = [m] := by
  induction l, cs using tokensFrom.induct with
  | case1 => exact absurd ht (by simp [tokensFrom])
  | case2 l c cs kind n h text ih =>
    rw [tokensFrom] at ht
    simp only [h, List.mem_cons] at ht
    rcases ht with rfl | ht
    · obtain ⟨rfl, hn⟩ := @read_mark c m cs (by rw [h]; exact hm)
      rw [h] at hn
      obtain rfl : n = 0 := hn
      simp
    · exact ih ht

/-- The tokens of marks are the marks. -/
def Marked (ts : List Token) : Prop := ∀ t ∈ ts, ∀ m, t.kind.mark? = some m → t.text = [m]

theorem Marked.of_infix {ts us : List Token} (h : Marked us) (hts : ts <:+: us) : Marked ts :=
  fun t ht => h t (hts.subset ht)

theorem marked_tokensFrom (l : Location) (cs : List Char) : Marked (tokensFrom l cs) :=
  fun _ ht _ hm => text_of_mem_tokensFrom ht hm

/-! ## Tokens in front of a mark -/

section

variable {α : Type} {b : Char} {length : α → Nat} {f g : List Char → α}

theorem SettledWithin.ite {p : List Char → Bool} (hp : Settled b p)
    (hf : SettledWithin b length f) (hg : SettledWithin b length g) :
    SettledWithin b length fun cs => if p cs = true then f cs else g cs := by
  intro a y z h
  simp only [hp a z y] at h ⊢
  split_ifs at h ⊢
  · exact hf a y z h
  · exact hg a y z h

theorem SettledWithin.ite_const {p : Prop} [Decidable p] (hf : p → SettledWithin b length f)
    (hg : SettledWithin b length g) :
    SettledWithin b length fun cs => if p then f cs else g cs := by
  intro a y z h
  split_ifs at h ⊢ with hp
  · exact hf hp a y z h
  · exact hg a y z h

theorem settledWithin_const (x : α) : SettledWithin b length fun _ => x :=
  fun _ _ _ _ => rfl

theorem SettledWithin.kind {f : List Char → Nat} (h : SettledWithin b id f) (k : Kind) :
    SettledWithin b (·.2) fun cs => (k, f cs) := by
  intro a y z hlen
  exact congrArg (Prod.mk k) (h a y z hlen)

theorem SettledWithin.cons_sub_one {f : List Char → Nat} (h : SettledWithin b id f) (c : Char) :
    SettledWithin b id fun cs => f (c :: cs) - 1 := by
  intro a y z hlen
  have hcons : f (c :: a ++ b :: y) ≤ (c :: a).length := by
    simp only [id_eq] at hlen
    rw [List.cons_append, List.length_cons]
    omega
  exact congrArg (· - 1) (h (c :: a) y z hcons)

end

variable {b : Char}

theorem settledWithin_readString (hb : IsStop b) {quote : Char} (hquote : ¬IsStop quote) :
    SettledWithin b (·.2) (readString quote) := by
  intro a y z h
  have hlen : (stringLength quote 0 (a ++ b :: y)).1 ≤ a.length := by
    unfold readString at h
    simp only at h
    split at h <;> exact h
  unfold readString
  rw [settledWithin_stringLength hb hquote 0 a y z hlen, stringText_eq_of_stringLength_le hb hlen]

theorem readUrl_of_quote {cs rest : List Char} {quote : Char}
    (hrest : cs.drop (cs.takeWhile isSpace).length = quote :: rest)
    (hquote : quote = '"' ∨ quote = '\'') : readUrl cs = none := by
  unfold readUrl
  simp only [hrest]
  rcases hquote with rfl | rfl <;> rfl

theorem readUrl_of_not_quote {cs rest : List Char}
    (hrest : cs.drop (cs.takeWhile isSpace).length = rest)
    (hquote : ∀ quote ∈ rest.head?, ¬(quote = '"' ∨ quote = '\'')) :
    readUrl cs =
      some (if (urlLength 0 rest).2 = true then
          .badUrl (String.ofList (rest.take (urlLength 0 rest).1)) else .other,
        (cs.takeWhile isSpace).length + (urlLength 0 rest).1 +
          if (rest.drop (urlLength 0 rest).1).isEmpty = true then 0 else 1) := by
  unfold readUrl
  simp only [hrest]
  split
  · exact absurd (.inl rfl) (hquote '"' rfl)
  · exact absurd (.inr rfl) (hquote '\'' rfl)
  · rfl

theorem isEmpty_drop_append_cons {k : Nat} {a : List Char} (hk : k ≤ a.length) (y : List Char) :
    ((a ++ b :: y).drop k).isEmpty = false := by
  rw [List.drop_append_of_le_length hk]
  cases a.drop k <;> rfl

theorem settledWithin_readUrl (hb : IsStop b) :
    SettledWithin b (fun r => (r.map (·.2)).getD 0) readUrl := by
  intro a y z h
  have hspace : isSpace b = false := by obtain rfl | rfl := hb <;> rfl
  have hspaces := settled_takeWhile hspace a z y
  have hle := length_takeWhile_le hspace a y
  have hdrop : ∀ w, (a ++ b :: w).drop ((a ++ b :: w).takeWhile isSpace).length =
      a.drop ((a ++ b :: y).takeWhile isSpace).length ++ b :: w := by
    intro w
    rw [settled_takeWhile hspace a w y]
    exact List.drop_append_of_le_length hle
  have hlength : (a.drop ((a ++ b :: y).takeWhile isSpace).length).length =
      a.length - ((a ++ b :: y).takeWhile isSpace).length := List.length_drop
  by_cases hquote : ∃ quote rest,
      a.drop ((a ++ b :: y).takeWhile isSpace).length = quote :: rest ∧ (quote = '"' ∨ quote = '\'')
  · obtain ⟨quote, rest, hrest, hquote⟩ := hquote
    rw [hrest] at hdrop
    rw [readUrl_of_quote (hdrop y) hquote, readUrl_of_quote (hdrop z) hquote]
  · have hhead : ∀ w, ∀ quote ∈
        (a.drop ((a ++ b :: y).takeWhile isSpace).length ++ b :: w).head?,
        ¬(quote = '"' ∨ quote = '\'') := by
      intro w quote hmem hq
      cases hrest : a.drop ((a ++ b :: y).takeWhile isSpace).length with
      | nil =>
        rw [hrest] at hmem
        obtain rfl : b = quote := Option.some.inj hmem
        obtain rfl | rfl := hb <;> simp at hq
      | cons c rest =>
        rw [hrest] at hmem
        obtain rfl : c = quote := Option.some.inj hmem
        exact hquote ⟨c, rest, hrest, hq⟩
    rw [readUrl_of_not_quote (hdrop y) (hhead y)] at h ⊢
    rw [readUrl_of_not_quote (hdrop z) (hhead z), hspaces]
    generalize a.drop ((a ++ b :: y).takeWhile isSpace).length = rest at *
    simp only [Option.map_some, Option.getD_some] at h
    have hurl : (urlLength 0 (rest ++ b :: y)).1 ≤ rest.length := by omega
    rw [settledWithin_urlLength hb 0 rest y z hurl, isEmpty_drop_append_cons hurl y,
      isEmpty_drop_append_cons hurl z, List.take_append_of_le_length hurl,
      List.take_append_of_le_length hurl]

theorem nameLength_le_readName (c : Char) (cs : List Char) :
    nameLength 0 (c :: cs) - 1 ≤ (readName c cs).2 := by
  unfold readName
  simp only
  split
  · split
    · split <;> simp only <;> omega
    · simp only
      omega
  · exact Nat.le_refl _

theorem settledWithin_readName (hb : IsStop b) (c : Char) :
    SettledWithin b (·.2) (readName c) := by
  intro a y z h
  have hname : nameLength 0 (c :: a ++ b :: y) ≤ (c :: a).length := by
    have := nameLength_le_readName c (a ++ b :: y)
    rw [List.cons_append, List.length_cons]
    simp only at h
    omega
  have hlength := settledWithin_nameLength hb 0 (c :: a) y z hname
  have htext := nameText_eq_of_nameLength_le hb (z := z) hname
  rw [List.length_cons] at hname
  simp only [List.cons_append] at hname hlength htext
  have hurlName : isUrlName (c :: (a ++ b :: z)) = isUrlName (c :: (a ++ b :: y)) := by
    rw [isUrlName, isUrlName, htext]
  have hn : nameLength 0 (c :: (a ++ b :: y)) - 1 ≤ a.length := by omega
  have hrest : (a.drop (nameLength 0 (c :: (a ++ b :: y)) - 1)).length =
      a.length - (nameLength 0 (c :: (a ++ b :: y)) - 1) := List.length_drop
  unfold readName at h ⊢
  simp only [hlength, hurlName] at h ⊢
  generalize nameLength 0 (c :: (a ++ b :: y)) - 1 = n at *
  rw [List.drop_append_of_le_length hn] at h ⊢
  rw [List.drop_append_of_le_length hn]
  generalize a.drop n = rest at *
  cases rest with
  | nil => obtain rfl | rfl := hb <;> rfl
  | cons d rest =>
    by_cases hd : d = '('
    · subst hd
      simp only [List.cons_append] at h ⊢
      by_cases hurl : isUrlName (c :: (a ++ b :: y)) = true
      · rw [List.length_cons] at hrest
        rw [if_pos hurl] at h
        rw [if_pos hurl, if_pos hurl]
        have hmore : ((readUrl (rest ++ b :: y)).map (·.2)).getD 0 ≤ rest.length := by
          cases hread : readUrl (rest ++ b :: y) with
          | none => exact Nat.zero_le _
          | some r =>
            rw [hread] at h
            simp only [Option.map_some, Option.getD_some] at h ⊢
            omega
        rw [settledWithin_readUrl hb rest y z hmore]
      · rw [if_neg hurl, if_neg hurl]
    · simp [hd]

theorem settledWithin_comment (hb : IsStop b) :
    SettledWithin b (·.2) fun cs => (Kind.comment, commentLength (cs.drop 1) + 1) := by
  intro a y z h
  cases a with
  | nil => exact absurd h (by simp)
  | cons c a =>
    simp only [List.cons_append, List.drop_one, List.tail_cons, List.length_cons,
      Nat.add_le_add_iff_right] at h ⊢
    rw [settledWithin_commentLength hb a y z h]

theorem Settled.cons {α : Type} {f : List Char → α} (h : Settled b f) (c : Char) :
    Settled b fun cs => f (c :: cs) :=
  fun a y z => h (c :: a) y z

theorem Settled.comp {α β : Type} {f : List Char → α} (h : Settled b f) (g : α → β) :
    Settled b fun cs => g (f cs) :=
  fun a y z => congrArg g (h a y z)

theorem settled_head? : Settled b List.head? := by
  intro a y z
  cases a <;> rfl

theorem settled_take_beq {w : List Char} (hw : b ∉ w) :
    Settled b fun cs => cs.take w.length == w := by
  intro a y z
  induction w generalizing a with
  | nil => rfl
  | cons d w ih =>
    have hbd : (b == d) = false := by
      rw [beq_eq_false_iff_ne]
      rintro rfl
      exact hw List.mem_cons_self
    cases a with
    | nil => simp [hbd]
    | cons c a =>
      have hrest := ih (fun h => hw (List.mem_cons_of_mem d h)) a
      simp only at hrest
      simp [hrest]

/-- What follows a hash. -/
theorem settledWithin_hash (hb : IsStop b) :
    SettledWithin b (·.2) fun cs =>
      match cs with
      | d :: _ =>
        if atName cs || d.isDigit || d == '-' then (Kind.other, nameLength 0 cs)
        else (Kind.other, 0)
      | [] => (Kind.other, 0) := by
  have hcond : Settled b fun cs => atName cs || (cs.headD ' ').isDigit || cs.headD ' ' == '-' := by
    intro a y z
    have hhead : (a ++ b :: y).headD ' ' = (a ++ b :: z).headD ' ' := by cases a <;> rfl
    simp only [settled_atName hb a y z, hhead]
  have hite := SettledWithin.ite hcond ((settledWithin_nameLength hb 0).kind .other)
    (settledWithin_const (Kind.other, 0))
  intro a y z h
  cases a with
  | nil => exact hite [] y z h
  | cons c a => exact hite (c :: a) y z h

/-- **A token that ends in front of a mark** does not depend on the text behind the mark. -/
theorem settledWithin_read (hb : IsStop b) (c : Char) : SettledWithin b (·.2) (read c) := by
  have hspace : isSpace b = false := by obtain rfl | rfl := hb <;> rfl
  have hmark : ∀ k : Kind, SettledWithin b (fun r : Kind × Nat => r.2) fun _ => (k, 0) :=
    fun k => settledWithin_const _
  have hspaces := ((settled_takeWhile hspace).comp List.length).within id
  have hname := settledWithin_nameLength hb 0
  have hnumber := settledWithin_numberLength hb
  have hreadName : SettledWithin b (·.2) fun cs =>
      if atName (c :: cs) = true then readName c cs else (Kind.other, 0) :=
    .ite ((settled_atName hb).cons c) (settledWithin_readName hb c) (hmark .other)
  have hslash : Settled b fun cs => c == '/' && cs.head? == some '*' :=
    settled_head?.comp fun d => c == '/' && d == some '*'
  have hcomment : Settled b fun cs => c == '<' && cs.take 3 == ['!', '-', '-'] := by
    have hb' : b ∉ ['!', '-', '-'] := by obtain rfl | rfl := hb <;> decide
    exact (settled_take_beq hb').comp (c == '<' && ·)
  have harrow : Settled b fun cs => cs.take 2 == ['-', '>'] := by
    have hb' : b ∉ ['-', '>'] := by obtain rfl | rfl := hb <;> decide
    exact settled_take_beq hb'
  refine .ite_const (fun _ => hspaces.kind .space) ?_
  refine .ite_const (fun hc => settledWithin_readString hb ?_) ?_
  · rintro (rfl | rfl) <;> simp at hc
  iterate 7 refine .ite_const (fun _ => hmark _) ?_
  refine .ite hslash (settledWithin_comment hb) ?_
  refine .ite_const (fun _ => settledWithin_hash hb) ?_
  refine .ite_const (fun _ => (SettledWithin.ite (settled_atName hb) hname
    (settledWithin_const 0)).kind .other) ?_
  refine .ite_const (fun _ => (hnumber.cons_sub_one c).kind .other) ?_
  refine .ite_const (fun _ => (SettledWithin.ite settled_startsDigit (hnumber.cons_sub_one c)
    (settledWithin_const 0)).kind .other) ?_
  refine .ite_const (fun _ => (SettledWithin.ite (settled_startsNumber hb) hnumber
    (settledWithin_const 0)).kind .other) ?_
  refine .ite hcomment (settledWithin_const _) ?_
  refine .ite_const (fun _ => ?_) hreadName
  refine .ite (settled_startsNumber hb) (hnumber.kind .other) ?_
  exact .ite harrow (settledWithin_const _) hreadName

end GlyphTrim.Css
