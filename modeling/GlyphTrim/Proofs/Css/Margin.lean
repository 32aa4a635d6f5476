import GlyphTrim.Proofs.Css.Ending
import GlyphTrim.Proofs.Css.Layout

/-!
# White space in front of a statement

A stylesheet and a program do not mean the same by white space: what a program takes from the
ends of a text may be a name in a stylesheet. In front of a class selector or an at-rule it falls
into tokens of its own all the same (`exists_tokensFrom_of_blanks`), so a statement that begins
with one of them can be cut there (`Holds.dropBlanks`).
-/

namespace GlyphTrim.Css

open Text

/-! ## Tokens of white space -/

theorem nameLength_append_le {x : Char} (hx : continuesName x = false) (hesc : x ≠ '\\')
    {a : List Char} (ha : ∀ c ∈ a, c ≠ '\\') (w : List Char) :
    nameLength 0 (a ++ x :: w) ≤ a.length := by
  induction a with
  | nil => simp [nameLength, hx, hesc]
  | cons c a ih =>
    have hc : c ≠ '\\' := ha c List.mem_cons_self
    have hle := ih fun d hd => ha d (List.mem_cons_of_mem c hd)
    rw [List.cons_append, nameLength, List.length_cons]
    cases hname : continuesName c with
    | true => simpa using hle
    | false => simp [hc]

theorem ne_of_isBlank {c d : Char} (hc : isBlank c = true) (hd : isBlank d = false) : c ≠ d := by
  rintro rfl
  rw [hc] at hd
  exact absurd hd (by simp)

/-- White space is white space of a stylesheet, a part of a name, or no mark at all. -/
theorem read_of_isBlank {c : Char} (hc : isBlank c = true) (cs : List Char) : read c cs =
    if isSpace c = true then (.space, (cs.takeWhile isSpace).length)
    else if atName (c :: cs) = true then readName c cs else (.other, 0) := by
  have hne : ∀ d, isBlank d = false → (c == d) = false := fun d hd =>
    beq_false_of_ne (ne_of_isBlank hc hd)
  have hdigit : c.isDigit = false := IsTrailing.isDigit_eq_false (.inl hc)
  -- none of the marks is white space
  simp only [read, hdigit, hne '"' (by decide), hne '\'' (by decide), hne '(' (by decide),
    hne '[' (by decide), hne '\x7b' (by decide), hne ')' (by decide), hne ']' (by decide),
    hne '\x7d' (by decide), hne ';' (by decide), hne '/' (by decide), hne '#' (by decide),
    hne '@' (by decide), hne '.' (by decide), hne '+' (by decide), hne '<' (by decide),
    hne '-' (by decide), Bool.or_self, Bool.false_and, Bool.false_eq_true, if_false]

section

variable {x : Char} {a : List Char}

theorem exists_readName_of_blanks (hx : x = '.' ∨ x = '@') {c : Char} (hc : isBlank c = true)
    (ha : ∀ d ∈ a, isBlank d = true) (w : List Char) :
    ∃ n, readName c (a ++ x :: w) = (.other, n) ∧ n ≤ a.length := by
  have hle : nameLength 0 (c :: a ++ x :: w) ≤ (c :: a).length := by
    refine nameLength_append_le ?_ ?_ ?_ w
    · obtain rfl | rfl := hx <;> rfl
    · obtain rfl | rfl := hx <;> decide
    · intro d hd
      rcases List.mem_cons.1 hd with rfl | hd
      · exact ne_of_isBlank hc (by decide)
      · exact ne_of_isBlank (ha d hd) (by decide)
  rw [List.length_cons, List.cons_append] at hle
  have hn : nameLength 0 (c :: (a ++ x :: w)) - 1 ≤ a.length := by omega
  refine ⟨_, readName_of_not_round ?_, hn⟩
  rw [List.drop_append_of_le_length hn]
  intro d hd
  cases hdrop : a.drop (nameLength 0 (c :: (a ++ x :: w)) - 1) with
  | nil =>
    rw [hdrop] at hd
    obtain rfl := Option.some.inj hd
    obtain rfl | rfl := hx <;> decide
  | cons e rest =>
    rw [hdrop] at hd
    obtain rfl := Option.some.inj hd
    have hmem : e ∈ a := List.mem_of_mem_drop (by rw [hdrop]; exact List.mem_cons_self)
    exact ne_of_isBlank (ha e hmem) (by decide)

/-- No token goes over the end of white space in front of a class selector or an at-rule. -/
theorem exists_read_of_blanks (hx : x = '.' ∨ x = '@') {c : Char} (hc : isBlank c = true)
    (ha : ∀ d ∈ a, isBlank d = true) (w : List Char) :
    ∃ kind n, read c (a ++ x :: w) = (kind, n) ∧ n ≤ a.length ∧
      (kind = .space ∨ kind = .other) := by
  have hspace : isSpace x = false := by obtain rfl | rfl := hx <;> rfl
  rw [read_of_isBlank hc]
  split_ifs
  · exact ⟨_, _, rfl, length_takeWhile_le hspace a w, .inl rfl⟩
  · obtain ⟨n, hread, hn⟩ := exists_readName_of_blanks hx hc ha w
    exact ⟨_, n, hread, hn, .inr rfl⟩
  · exact ⟨_, _, rfl, Nat.zero_le _, .inr rfl⟩

/-- **White space in front of a class selector or an at-rule** falls into tokens of its own. -/
theorem exists_tokensFrom_of_blanks (hx : x = '.' ∨ x = '@') (ha : ∀ d ∈ a, isBlank d = true)
    (w : List Char) (l : Location) :
    ∃ ts l', tokensFrom l (a ++ x :: w) = ts ++ tokensFrom l' (x :: w) ∧ sourceText ts = a ∧
      ∀ t ∈ ts, t.kind = .space ∨ t.kind = .other := by
  generalize hlen : a.length = k
  induction k using Nat.strongRecOn generalizing a l with
  | ind k ih =>
    cases a with
    | nil => exact ⟨[], l, rfl, rfl, by simp⟩
    | cons c a =>
      have hc : isBlank c = true := ha c List.mem_cons_self
      have ha' : ∀ d ∈ a, isBlank d = true := fun d hd => ha d (List.mem_cons_of_mem c hd)
      obtain ⟨kind, n, hread, hn, hkind⟩ := exists_read_of_blanks hx hc ha' w
      have hrest : (a.drop n).length < k := by
        rw [List.length_cons] at hlen
        rw [List.length_drop]
        omega
      obtain ⟨ts, l', htokens, htext, hkinds⟩ := ih _ hrest
        (fun d hd => ha' d (List.mem_of_mem_drop hd)) (l.advance (c :: a.take n)) rfl
      refine ⟨⟨kind, c :: a.take n, l⟩ :: ts, l', ?_, ?_, ?_⟩
      · rw [List.cons_append, List.cons_append, tokensFrom_eq_cons_iff, hread,
          List.take_append_of_le_length hn, List.drop_append_of_le_length hn]
        exact ⟨rfl, htokens.symm⟩
      · rw [sourceText_cons, htext, List.cons_append, List.take_append_drop]
      · intro t ht
        rcases List.mem_cons.1 ht with rfl | ht
        · exact hkind
        · exact hkinds t ht

end

/-! ## Statements behind white space -/

/-- Nodes that begin with a class selector or are at-rules. -/
inductive Node.BeginsWithMark : Node → Prop
  | rule {r : Rule} {rest : List Char} (h : r.selector.toList = '.' :: rest) :
      BeginsWithMark (.rule r)
  | atRule (head : AtRule) (children : List Node) : BeginsWithMark (.atRule head children)

theorem Node.BeginsWithMark.exists_eq_cons {n : Node} (h : n.BeginsWithMark) {text : String}
    (hcalled : n.IsCalled text) : ∃ x rest, (x = '.' ∨ x = '@') ∧ text.toList = x :: rest := by
  cases h with
  | rule h =>
    obtain rfl : _ = text := hcalled
    exact ⟨'.', _, .inl rfl, h⟩
  | atRule head children =>
    obtain ⟨rest, htext⟩ := hcalled
    exact ⟨'@', rest, .inr rfl, htext⟩

/-- The source text begins with the class selector or the at sign, perhaps behind white space. -/
theorem Node.BeginsWithMark.exists_raw_eq {n : Node} (h : n.BeginsWithMark) {ts : List Token}
    (hraw : n.raw = rawText ts) (hcalled : ∃ p q, ts = p ++ q ∧ n.IsCalled (trimmedText p)) :
    ∃ a x w, n.raw.toList = a ++ x :: w ∧ (∀ d ∈ a, isBlank d = true) ∧ (x = '.' ∨ x = '@') := by
  obtain ⟨p, q, rfl, hcalled⟩ := hcalled
  obtain ⟨x, rest, hx, htext⟩ := h.exists_eq_cons hcalled
  obtain ⟨a, e, hsource, ha, -⟩ := exists_sourceText_of_trimmedText htext
  have hblank : isBlank x = false := by obtain rfl | rfl := hx <;> rfl
  refine ⟨a, x, (rest ++ e ++ sourceText q).rdropWhile isBlank, ?_, ha, hx⟩
  have hwhole : sourceText (p ++ q) = a ++ x :: (rest ++ e ++ sourceText q) := by
    rw [sourceText_append, hsource]
    simp
  rw [hraw, toList_rawText, hwhole, rdropWhile_append_cons hblank]

/-- A class selector and an at-rule begin with a token that is no white space. -/
theorem startsStatement_tokensFrom {x : Char} (hx : x = '.' ∨ x = '@') (w : List Char)
    (l : Location) : StartsStatement (tokensFrom l (x :: w)) := by
  intro t ht
  rw [tokensFrom] at ht
  obtain rfl := Option.some.inj ht
  obtain rfl | rfl := hx <;> rfl

/-- The node without the white space in front of its source text. -/
def Node.dropBlanks : Node → Node
  | .rule r => .rule { r with raw := String.ofList (r.raw.toList.dropWhile isBlank) }
  | .atRule head children =>
    .atRule { head with raw := String.ofList (head.raw.toList.dropWhile isBlank) } children

theorem Node.toList_raw_dropBlanks (n : Node) :
    n.dropBlanks.raw.toList = n.raw.toList.dropWhile isBlank := by
  cases n <;> exact String.toList_ofList

theorem Node.dropBlanks_mapLines (f : Nat → Nat) (n : Node) :
    (n.mapLines f).dropBlanks = n.dropBlanks.mapLines f := by
  cases n <;> rfl

/-- What is left of a node without its lines and the white space in front of its source text. -/
def Node.bare (n : Node) : Node := (n.mapLines fun _ => 0).dropBlanks

theorem Node.raw_bare (n : Node) : n.bare.raw = n.dropBlanks.raw := by
  cases n <;> rfl

theorem Node.dropBlanks_of_eq (n : Node) (h : n.raw.toList.dropWhile isBlank = n.raw.toList) :
    n.dropBlanks = n := by
  have hraw : String.ofList (n.raw.toList.dropWhile isBlank) = n.raw := by
    rw [h, String.ofList_toList]
  cases n with
  | rule r => exact congrArg (fun raw => Node.rule { r with raw := raw }) hraw
  | atRule head children =>
    exact congrArg (fun raw => Node.atRule { head with raw := raw } children) hraw

theorem Node.map_content_rules_dropBlanks (n : Node) :
    n.dropBlanks.rules.map Rule.content = n.rules.map Rule.content := by
  cases n <;> rfl

/-- The nodes differ in their lines and in white space in front of their source texts only. -/
def Node.AlikeBare (ns ms : List Node) : Prop := ns.map Node.bare = ms.map Node.bare

theorem Node.Alike.alikeBare {ns ms : List Node} (h : Node.Alike ns ms) : Node.AlikeBare ns ms := by
  have hmap := congrArg (List.map Node.dropBlanks) (Node.alike_iff.1 h)
  rw [List.map_map, List.map_map] at hmap
  exact hmap

theorem Node.ofStatement_cases (text : String) :
    (∃ rest, ∀ raw line, Node.ofStatement text raw line =
      some (.atRule ⟨(splitAtPrelude rest).1, (splitAtPrelude rest).2, [], line, raw⟩ [])) ∨
    ∀ raw line, Node.ofStatement text raw line = none := by
  by_cases hat : ∃ rest, text.toList = '@' :: rest
  · obtain ⟨rest, htext⟩ := hat
    refine .inl ⟨rest, fun raw line => ?_⟩
    unfold Node.ofStatement
    rw [htext]
    rfl
  · refine .inr fun raw line => ?_
    unfold Node.ofStatement
    split
    · rename_i rest htext
      exact absurd ⟨rest, htext⟩ hat
    · rfl

section

variable {raw raw' : String} (h : raw.toList.dropWhile isBlank = raw'.toList.dropWhile isBlank)

include h

theorem bare_ofBlock (text : String) (inner : Items) (line line' : Nat) :
    (Node.ofBlock text inner raw line).bare = (Node.ofBlock text inner raw' line').bare := by
  unfold Node.ofBlock
  split <;> simp [Node.bare, Node.mapLines, Node.dropBlanks, Rule.mapLine, h]

theorem alikeBare_consStatement (text : String) (line line' : Nat) (items : Items) :
    Node.AlikeBare (Items.consStatement text raw line items).nodes
      (Items.consStatement text raw' line' items).nodes := by
  unfold Items.consStatement
  rcases Node.ofStatement_cases text with ⟨rest, hat⟩ | hnone
  · rw [hat, hat]
    simp [Node.AlikeBare, Items.consNode, Node.bare, Node.mapLines, Node.dropBlanks, h]
  · rw [hnone, hnone]
    rfl

end

/-- A mark behind other tokens. -/
theorem exists_of_append_eq_append_cons {ts us p qs : List Token} {s : Token}
    (h : ts ++ us = p ++ s :: qs) (hs : s ∉ ts) : ∃ p', p = ts ++ p' ∧ us = p' ++ s :: qs := by
  rcases List.append_eq_append_iff.1 h with ⟨p', rfl, rfl⟩ | ⟨p', rfl, hp'⟩
  · exact ⟨p', rfl, rfl⟩
  · cases p' with
    | nil => exact ⟨[], by simp, by simpa using hp'.symm⟩
    | cons u p' =>
      obtain ⟨rfl, -⟩ := List.cons.inj hp'
      exact absurd (List.mem_append_right p List.mem_cons_self) hs

/-- The source text without the white space around it. -/
theorem dropWhile_rawText (ts : List Token) :
    (rawText ts).toList.dropWhile isBlank = (trimmedText ts).toList := by
  have hcomm : ∀ cs : List Char, (cs.rdropWhile isBlank).dropWhile isBlank = trimChars cs := by
    intro cs
    induction cs using List.reverseRecOn with
    | nil => rfl
    | append_singleton cs c ih =>
      cases hc : isBlank c with
      | true => rw [List.rdropWhile_concat_pos _ _ _ hc, ih, trimChars_append_blank hc]
      | false =>
        have hink : EndsInk (cs ++ [c]) := fun d hd => by
          obtain rfl : c = d := by simpa using hd
          exact hc
        rw [List.rdropWhile_concat_neg _ _ _ (by simp [hc]), trimChars_of_endsInk hink]
  rw [toList_rawText, hcomm, trimmedText, String.toList_ofList]

section

variable {ts : List Token} (hblank : ∀ c ∈ sourceText ts, isBlank c = true)

include hblank

theorem trimmedText_append_of_blank (us : List Token) :
    trimmedText (ts ++ us) = trimmedText us := by
  rw [trimmedText, trimmedText, sourceText_append, trimChars, trimChars,
    List.dropWhile_append_of_pos hblank]

theorem dropWhile_rawText_append (us : List Token) :
    (rawText us).toList.dropWhile isBlank = (rawText (ts ++ us)).toList.dropWhile isBlank := by
  rw [dropWhile_rawText, dropWhile_rawText, trimmedText_append_of_blank hblank]

/-- White space in front of a statement changes nothing but its source text. -/
theorem Reads.exists_of_front {us : List Token} {items : Items} (h : Reads true (ts ++ us) items)
    (hkinds : ∀ t ∈ ts, t.kind = .space ∨ t.kind = .other) (hne : us ≠ [])
    (hstart : StartsStatement us) (hfront : StartsStatement (ts ++ us)) :
    ∃ items', Reads true us items' ∧ Node.AlikeBare items'.nodes items.nodes := by
  have hmark : ∀ {s : Token}, s.kind = .semicolon ∨ s.kind = .opening .curly → s ∉ ts := by
    intro s hs hmem
    rcases hkinds s hmem with hk | hk <;> rw [hk] at hs <;> simp at hs
  have hpasses : ∀ {p : List Token} {o : List Bracket}, passes [] (ts ++ p) = some o →
      passes [] p = some o := by
    intro p o hpass
    obtain ⟨o₁, ho, hp⟩ := passes_append_eq_some_iff.1 hpass
    obtain rfl := Option.some.inj ((passes_of_space_or_other hkinds []).symm.trans ho)
    exact hp
  generalize hcut : true = cut at h
  generalize hall : ts ++ us = all at h hfront
  cases h with
  | done => exact absurd (List.append_eq_nil_iff.1 hall).2 hne
  | @trivia _ t _ _ ht h =>
    have hnot : t.isTrivia = false := hfront t rfl
    exact absurd ht (by simp [hnot])
  | @last _ p o hne' hstart' hpass ho =>
    subst hall hcut
    refine ⟨_, .last hne hstart (hpasses hpass) ho, ?_⟩
    rw [trimmedText_append_of_blank hblank]
    exact alikeBare_consStatement (dropWhile_rawText_append hblank us) _ _ _ _
  | @semicolon _ p qs s items hstart' hpass hs h =>
    subst hcut
    obtain ⟨p, rfl, rfl⟩ := exists_of_append_eq_append_cons hall (hmark (.inl hs))
    refine ⟨_, .semicolon hstart.of_append (hpasses hpass) hs h, ?_⟩
    rw [trimmedText_append_of_blank hblank, List.append_assoc]
    exact alikeBare_consStatement (dropWhile_rawText_append hblank _) _ _ _ _
  | @block _ p body qs brace close inner items hstart' hpass hbrace hbody hclose h =>
    subst hcut
    obtain ⟨p, rfl, rfl⟩ := exists_of_append_eq_append_cons hall (hmark (.inr hbrace))
    refine ⟨_, .block hstart.of_append (hpasses hpass) hbrace hbody hclose h, ?_⟩
    rw [trimmedText_append_of_blank hblank, List.append_assoc]
    exact congrArg (· :: items.nodes.map Node.bare)
      (bare_ofBlock (dropWhile_rawText_append hblank _) _ _ _ _)
  | @cutBlock p body brace inner hstart' hpass hbrace hbody =>
    obtain ⟨p, rfl, rfl⟩ := exists_of_append_eq_append_cons hall (hmark (.inr hbrace))
    refine ⟨_, .cutBlock hstart.of_append (hpasses hpass) hbrace hbody, ?_⟩
    rw [trimmedText_append_of_blank hblank, List.append_assoc]
    exact congrArg (· :: []) (bare_ofBlock (dropWhile_rawText_append hblank _) _ _ _ _)

end

/-- White space in front of a stylesheet changes nothing but the source text of a node. -/
theorem Reads.exists_of_blanks {ts us : List Token} {items : Items}
    (h : Reads true (ts ++ us) items) (hblank : ∀ c ∈ sourceText ts, isBlank c = true)
    (hkinds : ∀ t ∈ ts, t.kind = .space ∨ t.kind = .other) (hne : us ≠ [])
    (hstart : StartsStatement us) :
    ∃ items', Reads true us items' ∧ Node.AlikeBare items'.nodes items.nodes := by
  induction ts with
  | nil => exact ⟨items, h, rfl⟩
  | cons t ts ih =>
    have hblank' : ∀ c ∈ sourceText ts, isBlank c = true := fun c hc =>
      hblank c (by rw [sourceText_cons]; exact List.mem_append_right _ hc)
    have hkinds' : ∀ u ∈ ts, u.kind = .space ∨ u.kind = .other := fun u hu =>
      hkinds u (List.mem_cons_of_mem t hu)
    cases ht : t.isTrivia with
    | true => exact ih (h.of_trivia_cons ht) hblank' hkinds'
    | false =>
      refine h.exists_of_front hblank hkinds hne hstart fun u hu => ?_
      obtain rfl : t = u := Option.some.inj hu
      exact ht

section

variable {n : Node} {a w : List Char} {x : Char} (hraw : n.raw.toList = a ++ x :: w)
  (ha : ∀ d ∈ a, isBlank d = true) (hx : x = '.' ∨ x = '@')

include hraw ha hx

theorem Node.toList_raw_dropBlanks_eq : n.dropBlanks.raw.toList = x :: w := by
  have hblank : isBlank x = false := by obtain rfl | rfl := hx <;> rfl
  rw [Node.toList_raw_dropBlanks, hraw, List.dropWhile_append_of_pos ha,
    List.dropWhile_cons_of_neg (by simp [hblank])]

/-- **A node that begins with a class selector or an at sign** is read alone without the white space
in front of it. -/
theorem Holds.dropBlanks (h : Holds n.raw.toList [n]) :
    Holds n.dropBlanks.raw.toList [n.dropBlanks] := by
  have hdrop := Node.toList_raw_dropBlanks_eq hraw ha hx
  obtain ⟨items, hreads, halike⟩ := h
  obtain ⟨ts, l, htokens, htext, hkinds⟩ := exists_tokensFrom_of_blanks hx ha w ⟨0, 0⟩
  rw [hraw, tokens, htokens] at hreads
  obtain ⟨items', hreads', hbare⟩ := hreads.exists_of_blanks (by rwa [htext]) hkinds
    (by rw [tokensFrom]; simp) (startsStatement_tokensFrom hx w l)
  rw [hdrop]
  refine (holds_iff_exists_reads l).2 ⟨items', hreads', ?_⟩
  rw [Node.AlikeBare, halike.alikeBare] at hbare
  obtain ⟨n', hnodes, hn'⟩ := List.map_eq_singleton_iff.1 hbare
  have hself : n'.dropBlanks = n' := by
    -- the node stands in the text without the white space, so it has none in front of it
    have hdrop' : n'.raw.toList.dropWhile isBlank = x :: w := by
      have hraws := congrArg Node.raw hn'
      rw [Node.raw_bare, Node.raw_bare] at hraws
      rw [← Node.toList_raw_dropBlanks, hraws, hdrop]
    have hin := (hreads'.standIn (marked_tokensFrom l (x :: w))).isInfix n' (by
      rw [hnodes, Node.withinAll]
      exact List.mem_append_left _ n'.mem_within_self)
    rw [sourceText_tokensFrom] at hin
    have hsuffix : x :: w <:+ n'.raw.toList := hdrop' ▸ List.dropWhile_suffix isBlank
    have heq := hsuffix.eq_of_length_le hin.length_le
    exact n'.dropBlanks_of_eq (hdrop'.trans heq)
  have hlines : n'.mapLines (fun _ => 0) = n.dropBlanks.mapLines fun _ => 0 := by
    rw [← Node.dropBlanks_mapLines, ← hself, ← Node.dropBlanks_mapLines]
    exact hn'
  rw [hnodes]
  exact Node.alike_iff.2 (congrArg (· :: []) hlines)

/-- A node that is closed is also closed without the white space in front of it. -/
theorem Closed.dropBlanks (h : Closed n.raw.toList) : Closed n.dropBlanks.raw.toList := by
  obtain ⟨ts, l, htokens, -, hkinds⟩ := exists_tokensFrom_of_blanks hx ha w ⟨0, 0⟩
  obtain ⟨hbalanced, hends⟩ := h
  have hsame := same_tokensFrom l ⟨0, 0⟩ (x :: w)
  rw [hraw, tokens, htokens] at hbalanced hends
  rw [Node.toList_raw_dropBlanks_eq hraw ha hx]
  refine ⟨?_, hsame.endsStatement hends.of_append⟩
  have hfront : openAfter [] ts = [] :=
    openAfter_of_passes_nil (passes_of_space_or_other hkinds []) []
  rwa [Balanced, openAfter_append, hfront, hsame.openAfter_eq] at hbalanced

end

end GlyphTrim.Css
