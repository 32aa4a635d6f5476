import GlyphTrim.Proofs.Css.LastToken
import GlyphTrim.Proofs.Css.Margin

/-!
# Statements that are cut out

A statement that the end of a text ends says the same without the white space at the end
(`Reads.rdropWhile_blank`), and one that the brace of a block ends says the same without the brace.
So the source text of every node of a stylesheet is a stylesheet with that node alone
(`exists_parse_raw`).
-/

namespace GlyphTrim.Css

open Text

variable {b : Char}

/-! ## Tokens that begin and end nothing -/

/-- Tokens that neither begin nor end a statement or a block. -/
def Token.IsInert (t : Token) : Prop := t.kind.IsPlain ∨ t.kind = .space ∨ t.kind = .comment

theorem Token.IsInert.not_mark {t : Token} (h : t.IsInert) :
    t.kind ≠ .semicolon ∧ t.kind ≠ .opening .curly ∧ t.kind ≠ .closing .curly := by
  rcases h with h | h | h
  · refine ⟨?_, ?_, ?_⟩ <;> intro hk <;> rw [hk] at h <;> exact h
  · simp [h]
  · simp [h]

theorem Token.IsInert.of_space_or_other {t : Token} (h : t.kind = .space ∨ t.kind = .other) :
    t.IsInert := by
  rcases h with h | h
  · exact .inr (.inl h)
  · exact .inl (by rw [h]; trivial)

theorem passToken_of_isPlain {t : Token} (h : t.kind.IsPlain) {o o' : List Bracket} :
    passToken t o = some o' ↔ o' = o ∧ (o = [] → t.kind.fault? = none) := by
  cases o <;> cases hk : t.kind <;> rw [hk] at h <;>
    first | exact absurd h id | simp [passToken, hk, Kind.fault?, eq_comm]

/-- Inert tokens are one statement that the end ends. -/
theorem Reads.eq_of_inert {ts : List Token} {items : Items} (h : Reads true ts items)
    (hne : ts ≠ []) (hstart : StartsStatement ts) (hinert : ∀ t ∈ ts, t.IsInert) :
    (∃ o, passes [] ts = some o) ∧
      items = Items.consStatement (trimmedText ts) (rawText ts) (lineOf ts) {} := by
  have hmark : ∀ s ∈ ts, s.kind ≠ .semicolon ∧ s.kind ≠ .opening .curly ∧
      s.kind ≠ .closing .curly := fun s hs => (hinert s hs).not_mark
  cases h with
  | done => exact absurd rfl hne
  | @trivia _ t ts _ ht h =>
    have hnot : t.isTrivia = false := hstart t rfl
    exact absurd ht (by simp [hnot])
  | last hne hstart hpass ho => exact ⟨⟨_, hpass⟩, rfl⟩
  | semicolon hstart hpass hs h => exact absurd hs (hmark _ (by simp)).1
  | block hstart hpass hbrace hbody hclose h => exact absurd hbrace (hmark _ (by simp)).2.1
  | cutBlock hstart hpass hbrace hbody => exact absurd hbrace (hmark _ (by simp)).2.1

/-- The tokens `e'` at the end of a text can be replaced by the tokens `e`, which leave out the
character `b` at the end. -/
structure Replaces (b : Char) (e e' : List Token) : Prop where
  inert : ∀ t ∈ e', t.IsInert
  text : sourceText e' = sourceText e ++ [b]
  pass : ∀ o o', passes o e' = some o' → passes o e = some o'
  reads : ∀ items, Reads true e' items → Reads true e items

/-- A mark in front of inert tokens. -/
theorem exists_of_append_eq {p ts ps e : List Token} {s : Token} (h : p ++ s :: ts = ps ++ e)
    (hs : s ∉ e) : ∃ qs, ps = p ++ s :: qs ∧ ts = qs ++ e := by
  rcases List.append_eq_append_iff.1 h with ⟨qs, rfl, hqs⟩ | ⟨qs, rfl, rfl⟩
  · cases qs with
    | nil =>
      rw [List.nil_append] at hqs
      exact absurd (hqs ▸ List.mem_cons_self) hs
    | cons u qs =>
      obtain ⟨rfl, rfl⟩ := List.cons.inj hqs
      exact ⟨qs, rfl, rfl⟩
  · exact absurd (List.mem_append_right qs List.mem_cons_self) hs

section

variable {e e' : List Token}

theorem texts_append_eq (hb : isBlank b = true) (htext : sourceText e' = sourceText e ++ [b])
    (ps : List Token) :
    trimmedText (ps ++ e') = trimmedText (ps ++ e) ∧ rawText (ps ++ e') = rawText (ps ++ e) := by
  have hsource : sourceText (ps ++ e') = sourceText (ps ++ e) ++ [b] := by
    rw [sourceText_append, sourceText_append, htext, List.append_assoc]
  constructor
  · rw [trimmedText, trimmedText, hsource, trimChars_append_blank hb]
  · have hraw : (rawText (ps ++ e')).toList = (rawText (ps ++ e)).toList := by
      rw [toList_rawText, toList_rawText, hsource, List.rdropWhile_concat_pos _ _ _ hb]
    exact String.toList_inj.1 hraw

theorem lineOf_append_of_ne_nil {ps : List Token} (hne : ps ≠ []) (ts us : List Token) :
    lineOf (ps ++ ts) = lineOf (ps ++ us) := by
  obtain ⟨p, ps, rfl⟩ := List.exists_cons_of_ne_nil hne
  rfl

/-- **Tokens at the end** of a text can be replaced. -/
theorem Replaces.reads_append (he : Replaces b e e') (hb : isBlank b = true) {ps : List Token}
    {items : Items} (h : Reads true (ps ++ e') items) : Reads true (ps ++ e) items := by
  have hmark : ∀ {s : Token}, s.kind = .semicolon ∨ s.kind = .closing .curly ∨
      s.kind = .opening .curly → s ∉ e' := by
    intro s hs hmem
    obtain ⟨h₁, h₂, h₃⟩ := (he.inert s hmem).not_mark
    rcases hs with hs | hs | hs
    · exact h₁ hs
    · exact h₃ hs
    · exact h₂ hs
  generalize hcut : true = cut at h
  generalize hts : ps ++ e' = ts at h
  induction h generalizing ps with
  | done =>
    obtain ⟨rfl, rfl⟩ := List.append_eq_nil_iff.1 hts
    exact absurd he.text (by simp [sourceText])
  | @trivia cut t ts items ht h ih =>
    subst hcut
    cases ps with
    | nil =>
      obtain rfl : e' = t :: ts := hts
      exact he.reads _ (.trivia ht h)
    | cons p ps =>
      obtain ⟨rfl, rfl⟩ := List.cons.inj hts
      exact .trivia ht (ih rfl rfl)
  | @last cut p o hne hstart hpass ho =>
    subst hcut
    cases ps with
    | nil =>
      obtain rfl : e' = p := hts
      exact he.reads _ (.last hne hstart hpass ho)
    | cons q ps =>
      subst hts
      obtain ⟨o₁, hps, he'⟩ := passes_append_eq_some_iff.1 hpass
      have hpass' : passes [] (q :: ps ++ e) = some o :=
        passes_append_eq_some_iff.2 ⟨o₁, hps, he.pass _ _ he'⟩
      have hne' : q :: ps ++ e ≠ [] := List.cons_ne_nil _ _
      obtain ⟨htrimmed, hraw⟩ := texts_append_eq hb he.text (q :: ps)
      rw [htrimmed, hraw, lineOf_append_of_ne_nil (List.cons_ne_nil q ps) e' e]
      exact .last hne' hstart hpass' ho
  | @semicolon cut p ts s items hstart hpass hs h ih =>
    subst hcut
    obtain ⟨qs, rfl, rfl⟩ := exists_of_append_eq hts.symm (hmark (.inl hs))
    rw [List.append_assoc, List.cons_append]
    exact .semicolon hstart hpass hs (ih rfl rfl)
  | @block cut p body ts brace close inner items hstart hpass hbrace hbody hclose h ihbody ih =>
    subst hcut
    have hsplit : (p ++ brace :: body) ++ close :: ts = ps ++ e' := by rw [hts]; simp
    obtain ⟨qs, rfl, rfl⟩ := exists_of_append_eq hsplit (hmark (.inr (.inl hclose)))
    have hwhole := Reads.block hstart hpass hbrace hbody hclose (ih rfl rfl)
    simpa using hwhole
  | @cutBlock p body brace inner hstart hpass hbrace hbody ih =>
    obtain ⟨qs, rfl, rfl⟩ := exists_of_append_eq hts.symm (hmark (.inr (.inr hbrace)))
    have hwhole := Reads.cutBlock hstart hpass hbrace (ih rfl rfl)
    have hraw := (texts_append_eq hb he.text (p ++ brace :: qs)).2
    rw [List.append_assoc, List.cons_append, List.append_assoc, List.cons_append] at hraw
    rw [List.append_assoc, List.cons_append, hraw]
    exact hwhole

end

/-! ## White space at the end -/

/-- White space that is a token of its own can be left out. -/
theorem replaces_nil (hb : isBlank b = true) (l : Location) : Replaces b [] (tokensFrom l [b]) := by
  obtain ⟨kind, hread, hkind⟩ : ∃ kind, (read b []).1 = kind ∧ (kind = .space ∨ kind = .other) := by
    rw [read_of_isBlank hb]
    split_ifs
    · exact ⟨_, rfl, .inl rfl⟩
    · rw [readName_of_not_round (by simp)]
      exact ⟨_, rfl, .inr rfl⟩
    · exact ⟨_, rfl, .inr rfl⟩
  have htokens : tokensFrom l [b] = [⟨kind, [b], l⟩] := by
    rw [tokensFrom_cons, hread, List.drop_nil, List.take_nil, tokensFrom]
  have hquiet : ∀ t ∈ tokensFrom l [b], t.kind = .space ∨ t.kind = .other := by
    intro t ht
    rw [htokens, List.mem_singleton] at ht
    rwa [ht]
  have hinert : ∀ t ∈ tokensFrom l [b], t.IsInert := fun t ht => .of_space_or_other (hquiet t ht)
  refine ⟨hinert, ?_, ?_, ?_⟩
  · rw [sourceText_tokensFrom]
    rfl
  · intro o o' h
    rwa [passes_of_space_or_other hquiet] at h
  · intro items h
    rcases hkind with rfl | rfl
    · rw [htokens] at h
      exact h.of_trivia_cons rfl
    · have hstart : StartsStatement (tokensFrom l [b]) := by
        rw [htokens]
        intro t ht
        rw [← Option.some.inj ht]
        rfl
      have hempty : trimmedText (tokensFrom l [b]) = "" := by
        rw [trimmedText, sourceText_tokensFrom, trimChars_of_blank (by simpa using hb)]
      obtain ⟨-, rfl⟩ := h.eq_of_inert (by rw [htokens]; simp) hstart hinert
      rw [hempty]
      exact .done

theorem EndTokens.inert {e e' : List Token} (h : EndTokens e e') :
    e' ≠ [] ∧ ∀ t ∈ e', t.IsInert := by
  cases h with
  | trivia hkind ht hlocation =>
    refine ⟨by simp, fun u hu => ?_⟩
    rw [List.mem_singleton.1 hu, Token.IsInert, hkind]
    exact .inr ht
  | plain hkinds hlocation hts hts' =>
    refine ⟨by simp, fun u hu => ?_⟩
    rcases List.mem_cons.1 hu with rfl | hu
    · exact .inl hkinds.2.1
    · exact .of_space_or_other (hts' u hu)

theorem startsStatement_of_isPlain {t : Token} (h : t.kind.IsPlain) (ts : List Token) :
    StartsStatement (t :: ts) := by
  intro u hu
  obtain rfl : t = u := Option.some.inj hu
  cases hk : t.kind <;> simp_all [Kind.IsPlain, Token.isTrivia]

theorem passes_cons_of_isPlain {t : Token} {ts : List Token} (h : t.kind.IsPlain)
    (hts : ∀ u ∈ ts, u.kind = .space ∨ u.kind = .other) {o o' : List Bracket} :
    passes o (t :: ts) = some o' ↔ o' = o ∧ (o = [] → t.kind.fault? = none) := by
  rw [passes_cons_eq_some_iff]
  constructor
  · rintro ⟨o₁, ht, hts'⟩
    rw [passes_of_space_or_other hts] at hts'
    obtain rfl := Option.some.inj hts'
    exact (passToken_of_isPlain h).1 ht
  · rintro ⟨rfl, hfault⟩
    exact ⟨o', (passToken_of_isPlain h).2 ⟨rfl, hfault⟩, passes_of_space_or_other hts o'⟩

/-- The last tokens of the longer text can be replaced by those of the text. -/
theorem EndTokens.replaces {e e' : List Token} (h : EndTokens e e') (hb : isBlank b = true)
    (htext : sourceText e' = sourceText e ++ [b]) : Replaces b e e' := by
  obtain ⟨hne, hinert⟩ := h.inert
  cases h with
  | @trivia t t' hkind ht hlocation =>
    have htrivia : t.isTrivia = true ∧ t'.isTrivia = true := by
      rw [Token.isTrivia, Token.isTrivia, hkind]
      rcases ht with hk | hk <;> simp [hk]
    refine ⟨hinert, htext, ?_, ?_⟩
    · intro o o' hpass
      have heq : passToken t o = passToken t' o := by cases o <;> rw [passToken, passToken, hkind]
      rw [passes, heq]
      exact hpass
    · intro items hreads
      rw [(hreads.of_trivia_cons htrivia.2).eq_of_nil]
      exact .trivia htrivia.1 .done
  | @plain t t' ts ts' hkinds hlocation hts hts' =>
    have hpass : ∀ o o', passes o (t' :: ts') = some o' → passes o (t :: ts) = some o' := by
      intro o o' hpass
      obtain ⟨rfl, hfault⟩ := (passes_cons_of_isPlain hkinds.2.1 hts').1 hpass
      exact (passes_cons_of_isPlain hkinds.1 hts).2 ⟨rfl, fun ho => hkinds.2.2 (hfault ho)⟩
    refine ⟨hinert, htext, hpass, ?_⟩
    intro items hreads
    obtain ⟨⟨o, ho⟩, rfl⟩ :=
      hreads.eq_of_inert hne (startsStatement_of_isPlain hkinds.2.1 ts') hinert
    have hlast := Reads.last (List.cons_ne_nil t ts) (startsStatement_of_isPlain hkinds.1 ts)
      (hpass _ _ ho) (.inr rfl)
    have hline : lineOf (t' :: ts') = lineOf (t :: ts) :=
      congrArg (fun location => location.breaks + 1) hlocation
    obtain ⟨htrimmed, hraw⟩ := texts_append_eq hb htext []
    rw [List.nil_append, List.nil_append] at htrimmed hraw
    rw [htrimmed, hraw, hline]
    exact hlast

/-- **White space at the end** of a text can be left out. -/
theorem Reads.of_concat_blank {l : Location} {cs : List Char} {items : Items}
    (h : Reads true (tokensFrom l (cs ++ [b])) items) (hb : isBlank b = true) :
    Reads true (tokensFrom l cs) items := by
  rcases exists_tokensFrom_concat (.inl hb) l cs with ⟨l', htokens⟩ | ⟨q, e, e', he, he', hends⟩
  · rw [htokens] at h
    have hcut := (replaces_nil hb l').reads_append hb h
    rwa [List.append_nil] at hcut
  · have htext : sourceText e' = sourceText e ++ [b] := by
      have hwhole := sourceText_tokensFrom l (cs ++ [b])
      have hcut := sourceText_tokensFrom l cs
      rw [he', sourceText_append] at hwhole
      rw [he, sourceText_append] at hcut
      rw [← hcut, List.append_assoc] at hwhole
      exact List.append_cancel_left hwhole
    rw [he'] at h
    rw [he]
    exact (hends.replaces hb htext).reads_append hb h

theorem Reads.rdropWhile_blank {l : Location} {cs : List Char} {items : Items}
    (h : Reads true (tokensFrom l cs) items) :
    Reads true (tokensFrom l (cs.rdropWhile isBlank)) items := by
  induction cs using List.reverseRecOn with
  | nil => exact h
  | append_singleton cs c ih =>
    cases hc : isBlank c with
    | true =>
      rw [List.rdropWhile_concat_pos _ _ _ hc]
      exact ih (h.of_concat_blank hc)
    | false =>
      rw [List.rdropWhile_concat_neg _ _ _ (by simp [hc])]
      exact h

/-! ## Source texts -/

/-- The tokens in front of a brace do not depend on it. -/
theorem tokensFrom_of_concat_brace {l : Location} {cs : List Char} {us : List Token} {close : Token}
    (h : tokensFrom l (cs ++ ['\x7d']) = us ++ [close]) (hclose : close.kind = .closing .curly) :
    tokensFrom l cs = us := by
  rcases exists_tokensFrom_concat (.inr rfl) l cs with ⟨l', htokens⟩ | ⟨q, e, e', he, he', hends⟩
  · have hread : read '\x7d' [] = (.closing .curly, 0) := rfl
    rw [h, tokensFrom_cons, hread, List.drop_nil, tokensFrom] at htokens
    exact (List.append_inj' htokens rfl).1.symm
  · -- the brace is not inert
    obtain ⟨hne, hinert⟩ := hends.inert
    obtain ⟨e', t, rfl⟩ := (List.eq_nil_or_concat' e').resolve_left hne
    rw [h, ← List.append_assoc] at he'
    obtain rfl : close = t := List.singleton_inj.1 (List.append_inj' he' rfl).2
    exact absurd hclose (hinert close (by simp)).not_mark.2.2

/-- The text is one statement, which makes the node, if it stands at a fitting place. -/
def ReadsAlone (cs : List Char) (n : Node) : Prop :=
  ∃ l, Reads true (tokensFrom l cs) ⟨[], [n]⟩

theorem ReadsAlone.rdropWhile {cs : List Char} {n : Node} (h : ReadsAlone cs n) :
    ReadsAlone (cs.rdropWhile isBlank) n := by
  obtain ⟨l, hreads⟩ := h
  exact ⟨l, hreads.rdropWhile_blank⟩

theorem Reads.eq_of_same_id {cut : Bool} {ts us : List Token} {items : Items}
    (h : Reads cut ts items) (hsame : Same id id ts us) : Reads cut us items := by
  obtain ⟨items', hreads, heq⟩ := h.exists_of_same hsame
  rw [Items.mapLines_id, Items.mapLines_id] at heq
  rwa [heq]

/-- Tokens that end with a statement are read again from their text. -/
theorem Lexed.exists_tokensFrom_sourceText {ts : List Token} (h : Lexed ts)
    (hend : EndsStatement ts) : ∃ l, Same id id ts (tokensFrom l (sourceText ts)) := by
  obtain ⟨l, hslice⟩ := h.exists_tokensFrom_append hend
  obtain ⟨us, l', hus, hsame⟩ := hslice id id l (fun _ => rfl) []
  rw [List.append_nil, tokensFrom, List.append_nil] at hus
  exact ⟨l, hus ▸ hsame⟩

/-- A closed statement is read alone. -/
theorem IsStatement.readsAlone {ts : List Token} {n : Node} (h : IsStatement ts n)
    (hlexed : Lexed ts) : ReadsAlone (sourceText ts) n := by
  obtain ⟨l, hsame⟩ := hlexed.exists_tokensFrom_sourceText h.ends
  exact ⟨l, (h.reads.eq_of_same_id hsame).mono true⟩

/-- A statement that the brace of a block ends is read alone without the brace. -/
theorem IsLastStatement.readsAlone_of_close {ts : List Token} {close : Token} {n : Node}
    (h : IsLastStatement false ts n) (hlexed : Lexed (ts ++ [close]))
    (hclose : close.kind = .closing .curly) : ReadsAlone (sourceText ts) n := by
  obtain ⟨l, hsame⟩ := hlexed.exists_tokensFrom_sourceText (endsStatement_concat (.inr hclose))
  have hmark : close.text = ['\x7d'] := hlexed.marked close (by simp) _ (by rw [hclose]; rfl)
  have hsource : sourceText (ts ++ [close]) = sourceText ts ++ ['\x7d'] := by
    rw [sourceText_append, sourceText_cons, hmark]
    rfl
  obtain ⟨us, vs, htokens, hus, hvs⟩ := hsame.exists_append
  obtain ⟨close', vs, rfl, hclose', hnil⟩ := hvs.exists_cons
  obtain rfl := List.map_eq_nil_iff.1 hnil.symm
  rw [kind_eq_of_key_eq hclose'] at hclose
  rw [hsource] at htokens
  refine ⟨l, ?_⟩
  rw [tokensFrom_of_concat_brace htokens hclose]
  exact (h.reads.eq_of_same_id hus).mono true

/-- A statement that the end of the input ends is read alone. -/
theorem IsLastStatement.readsAlone_of_suffix {cs : List Char} {ts : List Token} {n : Node}
    (h : IsLastStatement true ts n) (hts : ts <:+ tokens cs) : ReadsAlone (sourceText ts) n := by
  obtain ⟨ps, hps⟩ := hts
  obtain ⟨l, hl⟩ := exists_tokensFrom_of_append hps.symm
  refine ⟨l, ?_⟩
  rw [← hl]
  exact h.reads

/-- **The source text of a node** of a stylesheet, at any depth, is read as this node at the place
where the node stands. -/
theorem readsAlone_raw {css : String} {sheet : Sheet} (hparse : Sheet.parse css = .ok sheet)
    {n : Node} (hn : n ∈ Node.withinAll sheet.nodes) : ReadsAlone n.raw.toList n := by
  obtain ⟨items, hreads, hnodes⟩ := parse_eq_ok_iff.1 hparse
  have hlexed := lexed_tokensFrom ⟨0, 0⟩ (dropMark css.toList)
  rw [hnodes] at hn
  rcases hreads.hasStatement hn with ⟨us, hus, h⟩ | ⟨us, close, hus, hclose, h⟩ | ⟨us, hus, h⟩ <;>
    rw [h.raw_eq, toList_rawText]
  · exact (h.readsAlone (hlexed.of_infix hus)).rdropWhile
  · exact (h.readsAlone_of_close (hlexed.of_infix hus) hclose).rdropWhile
  · exact (h.readsAlone_of_suffix hus).rdropWhile

/-- **The source text of a node** of a stylesheet also holds this node where it stands alone. -/
theorem holds_raw {css : String} {sheet : Sheet} (hparse : Sheet.parse css = .ok sheet) {n : Node}
    (hn : n ∈ Node.withinAll sheet.nodes) : Holds n.raw.toList [n] := by
  obtain ⟨l, hreads⟩ := readsAlone_raw hparse hn
  exact (holds_iff_exists_reads l).2 ⟨_, hreads, rfl⟩

/-- A text that is one statement is a stylesheet with its node, on other lines. -/
theorem ReadsAlone.exists_parse {text : String} {n : Node} (h : ReadsAlone text.toList n)
    (hmark : dropMark text.toList = text.toList) :
    ∃ k m, Sheet.parse text = .ok ⟨[m]⟩ ∧ m.mapLines (· + k) = n := by
  obtain ⟨l, hreads⟩ := h
  have hsame : Same id (· + l.breaks) (tokensFrom l text.toList) (tokens text.toList) := by
    apply same_tokensFrom_of_breaks
    intro k
    simp only [id_eq]
    omega
  obtain ⟨⟨declarations, nodes⟩, hreads', heq⟩ := hreads.exists_of_same hsame
  rw [Items.mapLines_id, Items.mapLines, Items.mk.injEq, Node.mapLinesAll_eq_map] at heq
  obtain ⟨m, rfl, hm⟩ := List.map_eq_singleton_iff.1 heq.2.symm
  refine ⟨l.breaks, m, parse_eq_ok_iff.2 ⟨⟨declarations, [m]⟩, ?_, rfl⟩, hm⟩
  rw [hmark]
  exact hreads'

theorem dropMark_of_head?_ne {cs : List Char} (h : cs.head? ≠ some '\uFEFF') :
    dropMark cs = cs := by
  unfold dropMark
  split
  · exact absurd rfl h
  · rfl

/-- **The source text of a node** of a stylesheet, at any depth, is a stylesheet with this node
alone, on lines that are all shifted by the same number, unless a byte order mark at its start would
be dropped. -/
theorem exists_parse_raw {css : String} {sheet : Sheet} (hparse : Sheet.parse css = .ok sheet)
    {n : Node} (hn : n ∈ Node.withinAll sheet.nodes) (hmark : n.raw.toList.head? ≠ some '\uFEFF') :
    ∃ k m, Sheet.parse n.raw = .ok ⟨[m]⟩ ∧ m.mapLines (· + k) = n :=
  (readsAlone_raw hparse hn).exists_parse (dropMark_of_head?_ne hmark)

/-- A stylesheet in which the input ends two blocks at once. -/
def openCss : String := "@media print\n\x7b .b\x7btop:0\x7d\n.a\n \x7b left: 1 "

/-- The rule at the end is read again. -/
theorem exists_parse_raw_openCss : ∃ sheet, Sheet.parse openCss = .ok sheet ∧
    ∃ n ∈ Node.withinAll sheet.nodes, n.raw = ".a\n \x7b left: 1" ∧
      ∃ k m, Sheet.parse n.raw = .ok ⟨[m]⟩ ∧ m.mapLines (· + k) = n := by
  have hraws : (Sheet.parse openCss).toOption.map (fun sheet =>
      (Node.withinAll sheet.nodes).map Node.raw) =
        some ["@media print\n\x7b .b\x7btop:0\x7d\n.a\n \x7b left: 1", ".b\x7btop:0\x7d",
          ".a\n \x7b left: 1"] := by
    decide +kernel
  obtain ⟨sheet, hparse, hnodes⟩ := exists_eq_ok_of_toOption_map hraws
  have hmem : ".a\n \x7b left: 1" ∈ (Node.withinAll sheet.nodes).map Node.raw := by simp [hnodes]
  obtain ⟨n, hn, hraw⟩ := List.mem_map.1 hmem
  exact ⟨sheet, hparse, n, hn, hraw, exists_parse_raw hparse hn (by rw [hraw]; decide)⟩

/-- A node that begins with a class selector or an at sign is also read without the white space in
front of it. -/
theorem holds_raw_dropBlanks {css : String} {sheet : Sheet} (hparse : Sheet.parse css = .ok sheet)
    {n : Node} (hn : n ∈ Node.withinAll sheet.nodes) (hmark : n.BeginsWithMark) :
    Holds n.dropBlanks.raw.toList [n.dropBlanks] := by
  obtain ⟨items, hreads, hnodes⟩ := parse_eq_ok_iff.1 hparse
  obtain ⟨a, x, w, hraw, ha, hx⟩ : ∃ a x w, n.raw.toList = a ++ x :: w ∧
      (∀ d ∈ a, isBlank d = true) ∧ (x = '.' ∨ x = '@') := by
    have hn' := hn
    rw [hnodes] at hn'
    rcases hreads.hasStatement hn' with ⟨us, -, h⟩ | ⟨us, close, -, -, h⟩ | ⟨us, -, h⟩ <;>
      exact hmark.exists_raw_eq h.raw_eq h.called
  exact Holds.dropBlanks hraw ha hx (holds_raw hparse hn)

theorem Holds.ne_nil {cs : List Char} {n : Node} {ns : List Node} (h : Holds cs (n :: ns)) :
    cs ≠ [] := by
  rintro rfl
  obtain ⟨items, hreads, halike⟩ := h
  rw [tokens, tokensFrom] at hreads
  rw [hreads.eq_of_nil] at halike
  exact absurd halike (by simp [Node.Alike, Node.mapLinesAll])

end GlyphTrim.Css
