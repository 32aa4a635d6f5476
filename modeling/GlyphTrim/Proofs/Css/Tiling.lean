import GlyphTrim.Proofs.Css.Filler
import GlyphTrim.Proofs.Css.Lines
import GlyphTrim.Proofs.Css.Margin

/-!
# The nodes of a stylesheet in its text

The source texts of the nodes of a stylesheet stand in its text one behind the other. In between
there are white space, comments, and statements that are neither blocks nor at-rules. The nodes in
the block of an at-rule stand one behind the other in its source text, and each node is on the line
that the line breaks in front of its source text tell (`parse_tiles`).
-/

namespace GlyphTrim.Css

open Text

/-! ## Where nodes stand -/

mutual

/-- The node stands behind the text `front`, which tells its line, and the nodes in its block stand
in its source text. -/
def Node.StandsAt : Node → List Char → Prop
  | .rule r, front => r.line = lineBreaks front + 1
  | .atRule head children, front =>
    head.line = lineBreaks front + 1 ∧ Node.StandInOrder children front head.raw.toList

/-- The source texts of the nodes are parts of the text `cs`, one behind the other. The text itself
stands behind the text `front`. -/
def Node.StandInOrder : List Node → List Char → List Char → Prop
  | [], _, _ => True
  | n :: ns, front, cs =>
    ∃ gap rest, cs = gap ++ (n.raw.toList ++ rest) ∧ n.StandsAt (front ++ gap) ∧
      Node.StandInOrder ns (front ++ gap ++ n.raw.toList) rest

end

/-- The source texts of the nodes and fillers in between make up a text that stands behind the text
`front`. Behind the last node there may also be white space that was cut off its source text. -/
inductive Tiles : List Char → List Char → List Node → Prop
  | last {front gap : List Char}
      (hgap : (∀ c ∈ gap, isBlank c = true) ∨ Filler true (tokens gap)) : Tiles front gap []
  | node {front gap rest : List Char} {n : Node} {ns : List Node} (hgap : Filler false (tokens gap))
      (hn : n.StandsAt (front ++ gap)) (h : Tiles (front ++ gap ++ n.raw.toList) rest ns) :
      Tiles front (gap ++ (n.raw.toList ++ rest)) (n :: ns)

/-! ## Nodes in order -/

section

variable {front cs : List Char} {ns : List Node}

theorem Node.StandInOrder.of_append {a : List Char} (h : Node.StandInOrder ns (front ++ a) cs) :
    Node.StandInOrder ns front (a ++ cs) := by
  cases ns with
  | nil => trivial
  | cons n ns =>
    obtain ⟨gap, rest, rfl, hn, hns⟩ := h
    rw [List.append_assoc front a gap] at hn hns
    exact ⟨a ++ gap, rest, by simp, hn, hns⟩

theorem Node.StandInOrder.append (h : Node.StandInOrder ns front cs) (e : List Char) :
    Node.StandInOrder ns front (cs ++ e) := by
  induction ns generalizing front cs with
  | nil => trivial
  | cons n ns ih =>
    obtain ⟨gap, rest, rfl, hn, hns⟩ := h
    exact ⟨gap, rest ++ e, by simp, hn, ih hns⟩

/-- White space at the end can be left out, since source texts do not end in it. -/
theorem Node.StandInOrder.rdropWhile (h : Node.StandInOrder ns front cs)
    (hraw : ∀ n ∈ ns, EndsInk n.raw.toList ∧ n.raw.toList ≠ []) :
    Node.StandInOrder ns front (cs.rdropWhile isBlank) := by
  induction ns generalizing front cs with
  | nil => trivial
  | cons n ns ih =>
    obtain ⟨gap, rest, rfl, hn, hns⟩ := h
    obtain ⟨⟨hink, hne⟩, hraw⟩ := List.forall_mem_cons.1 hraw
    obtain ⟨w, c, hw⟩ := (List.eq_nil_or_concat' n.raw.toList).resolve_left hne
    have hc : isBlank c = false := hink c (by rw [hw]; simp)
    refine ⟨gap, rest.rdropWhile isBlank, ?_, hn, ih hns hraw⟩
    have hcut := rdropWhile_append_cons hc (gap ++ w) rest
    rw [hw]
    simpa using hcut

end

/-! ## Places -/

/-- The tokens are on the lines that the text in front of them tells. -/
def Placed (front : List Char) (ts : List Token) : Prop :=
  ∀ a t b, ts = a ++ t :: b → t.location.breaks = lineBreaks (front ++ sourceText a)

theorem placed_tokens (cs : List Char) : Placed [] (tokens cs) := by
  intro a t b h
  rw [breaks_of_tokensFrom h, Nat.zero_add, List.nil_append]

section

variable {front : List Char} {ts us : List Token}

theorem Placed.left (h : Placed front (ts ++ us)) : Placed front ts := by
  rintro a t b rfl
  exact h a t (b ++ us) (by simp)

theorem Placed.right (h : Placed front (ts ++ us)) : Placed (front ++ sourceText ts) us := by
  rintro a t b rfl
  rw [List.append_assoc, ← sourceText_append]
  exact h (ts ++ a) t b (by simp)

theorem Placed.lineOf_eq (h : Placed front (ts ++ us)) (hne : ts ≠ []) :
    lineOf ts = lineBreaks front + 1 := by
  obtain ⟨t, ts, rfl⟩ := List.exists_cons_of_ne_nil hne
  have hline := h [] t (ts ++ us) rfl
  rw [sourceText, List.flatMap_nil, List.append_nil] at hline
  exact congrArg (· + 1) hline

end

/-! ## Nodes and fillers in tokens -/

/-- The tokens, which stand behind the text `front`, are those of the nodes with fillers in
between. -/
inductive Laid : List Char → List Token → List Node → Prop
  | last {front : List Char} {g : List Token} (hg : Filler true g) : Laid front g []
  | node {front : List Char} {g us ts : List Token} {n : Node} {ns : List Node}
      (hg : Filler false g) (hn : n.StandsAt (front ++ sourceText g)) (hraw : n.raw = rawText us)
      (hne : n.raw.toList ≠ []) (hend : EndsStatement us ∨ ts = [])
      (h : Laid (front ++ sourceText (g ++ us)) ts ns) : Laid front (g ++ (us ++ ts)) (n :: ns)

theorem Laid.prepend {front : List Char} {g ts : List Token} {ns : List Node} (hg : Filler false g)
    (h : Laid (front ++ sourceText g) ts ns) : Laid front (g ++ ts) ns := by
  cases h with
  | last hlast => exact .last (hg.append hlast)
  | @node _ g' us ts n ns hg' hn hraw hne hend h =>
    rw [List.append_assoc, ← sourceText_append] at hn h
    rw [← List.append_assoc]
    exact .node (hg.append hg') hn hraw hne hend (by rwa [List.append_assoc])

/-- A statement without white space or comments in front of it. -/
theorem Laid.cons {front : List Char} {us ts : List Token} {n : Node} {ns : List Node}
    (hn : n.StandsAt front) (hraw : n.raw = rawText us) (hne : n.raw.toList ≠ [])
    (hend : EndsStatement us ∨ ts = []) (h : Laid (front ++ sourceText us) ts ns) :
    Laid front (us ++ ts) (n :: ns) := by
  have hn' : n.StandsAt (front ++ sourceText []) := by
    rw [sourceText, List.flatMap_nil, List.append_nil]
    exact hn
  exact .node .nil hn' hraw hne hend h

theorem Laid.single {front : List Char} {us : List Token} {n : Node} (hn : n.StandsAt front)
    (hraw : n.raw = rawText us) (hne : n.raw.toList ≠ []) : Laid front us [n] := by
  rw [← List.append_nil us]
  exact .cons hn hraw hne (.inr rfl) (.last .nil)

/-- Source texts are not empty and do not end in white space. -/
theorem Laid.inked {front : List Char} {ts : List Token} {ns : List Node} (h : Laid front ts ns) :
    ∀ n ∈ ns, EndsInk n.raw.toList ∧ n.raw.toList ≠ [] := by
  induction h with
  | last hg => exact fun n hn => absurd hn (by simp)
  | node hg hn hraw hne hend h ih =>
    refine List.forall_mem_cons.2 ⟨⟨?_, hne⟩, ih⟩
    rw [hraw]
    exact endsInk_rawText _

/-- The text of tokens is their source text with white space behind it. -/
theorem exists_sourceText_eq (ts : List Token) :
    ∃ e, sourceText ts = (rawText ts).toList ++ e ∧ ∀ c ∈ e, isBlank c = true := by
  refine ⟨(sourceText ts).rtakeWhile isBlank, ?_, fun c hc => List.mem_rtakeWhile_imp hc⟩
  rw [toList_rawText, List.rdropWhile_append_rtakeWhile]

theorem Laid.standInOrder {front : List Char} {ts : List Token} {ns : List Node}
    (h : Laid front ts ns) : Node.StandInOrder ns front (sourceText ts) := by
  induction h with
  | last hg => trivial
  | @node front g us ts n ns hg hn hraw hne hend h ih =>
    obtain ⟨e, hus, -⟩ := exists_sourceText_eq us
    rw [← hraw] at hus
    refine ⟨sourceText g, e ++ sourceText ts, ?_, hn, ?_⟩
    · rw [sourceText_append, sourceText_append, hus, List.append_assoc]
    · rw [sourceText_append, hus, ← List.append_assoc, ← List.append_assoc] at ih
      exact ih.of_append

/-! ## Statements -/

/-- A node with a block stands where its prelude begins. -/
theorem standsAt_ofBlock {front : List Char} {p q : List Token} {brace : Token} {inner : Items}
    {line : Nat} (hbrace : brace.text = ['\x7b']) (hline : line = lineBreaks front + 1)
    (hq : Node.StandInOrder inner.nodes (front ++ sourceText (p ++ [brace])) (sourceText q))
    (hraw : ∀ n ∈ inner.nodes, EndsInk n.raw.toList ∧ n.raw.toList ≠ []) :
    (Node.ofBlock (trimmedText p) inner (rawText (p ++ brace :: q)) line).StandsAt front := by
  rcases Node.ofBlock_cases (trimmedText p) inner (rawText (p ++ brace :: q)) line with
    heq | ⟨rest, -, heq⟩ <;> rw [heq]
  · exact hline
  · refine ⟨hline, ?_⟩
    have hwhole : (rawText (p ++ brace :: q)).toList =
        sourceText (p ++ [brace]) ++ (sourceText q).rdropWhile isBlank := by
      rw [toList_rawText_append_cons hbrace (by decide), sourceText_append, sourceText_cons,
        hbrace]
      simp [sourceText]
    rw [hwhole]
    exact (hq.rdropWhile hraw).of_append

theorem toList_raw_ofBlock_ne_nil {p q : List Token} {brace : Token} {inner : Items} {line : Nat}
    (hbrace : brace.text = ['\x7b']) :
    (Node.ofBlock (trimmedText p) inner (rawText (p ++ brace :: q)) line).raw.toList ≠ [] := by
  rw [Node.raw_ofBlock, toList_rawText_append_cons hbrace (by decide)]
  simp

/-- A statement without a block is an at-rule if it begins with an at sign. -/
theorem nodes_consStatement (text raw : String) (line : Nat) (items : Items) :
    (∃ rest, text.toList = '@' :: rest ∧ (Items.consStatement text raw line items).nodes =
      .atRule ⟨(splitAtPrelude rest).1, (splitAtPrelude rest).2, [], line, raw⟩ [] :: items.nodes) ∨
    text.toList.head? ≠ some '@' ∧
      (Items.consStatement text raw line items).nodes = items.nodes := by
  unfold Items.consStatement Node.ofStatement
  split
  · rename_i node h
    split at h
    · rename_i rest htext
      obtain rfl := Option.some.inj h
      exact .inl ⟨rest, htext, rfl⟩
    · exact absurd h (by simp)
  · rename_i h
    split at h
    · exact absurd h (by simp)
    · rename_i hnone
      refine .inr ⟨fun hhead => ?_, rfl⟩
      obtain ⟨rest, hrest⟩ := List.head?_eq_some_iff.1 hhead
      exact hnone rest hrest

theorem toList_rawText_ne_nil {p q : List Token} {rest : List Char}
    (h : (trimmedText p).toList = '@' :: rest) : (rawText (p ++ q)).toList ≠ [] := by
  obtain ⟨b, e, hsource, -, -, -⟩ := exists_sourceText_of_trimmedText h
  have hwhole : sourceText (p ++ q) = b ++ '@' :: (rest ++ e ++ sourceText q) := by
    rw [sourceText_append, hsource]
    simp
  rw [toList_rawText, hwhole, rdropWhile_append_cons (by decide)]
  simp

/-- **Tokens are those of the nodes that they read**, with fillers in between. -/
theorem Reads.laid {cut : Bool} {ts : List Token} {items : Items} (h : Reads cut ts items)
    {front : List Char} (hplaced : Placed front ts) (hmarks : Marked ts) :
    Laid front ts items.nodes := by
  induction h generalizing front with
  | done => exact .last .nil
  | @trivia cut t ts items ht h ih =>
    have hts : ts <:+: t :: ts := (List.suffix_cons t ts).isInfix
    have hrest : Placed (front ++ sourceText [t]) ts := Placed.right hplaced
    exact .prepend (.trivia ht .nil) (ih hrest (hmarks.of_infix hts))
  | @last cut p o hne hstart hpass ho =>
    rw [← List.append_nil p] at hplaced
    rcases nodes_consStatement (trimmedText p) (rawText p) (lineOf p) {} with
      ⟨rest, htext, heq⟩ | ⟨hname, heq⟩ <;> rw [heq]
    · have hraw := toList_rawText_ne_nil (q := []) htext
      rw [List.append_nil] at hraw
      exact .single ⟨hplaced.lineOf_eq hne, trivial⟩ rfl hraw
    · exact .last (.last hstart hpass hname)
  | @semicolon cut p ts s items hstart hpass hs h ih =>
    rw [List.append_cons] at hplaced ⊢
    have hrest := ih hplaced.right (hmarks.of_infix (infix_semicolon p ts s).2)
    rcases nodes_consStatement (trimmedText p) (rawText (p ++ [s])) (lineOf (p ++ [s])) items with
      ⟨rest, htext, heq⟩ | ⟨hname, heq⟩ <;> rw [heq]
    · exact .cons ⟨hplaced.lineOf_eq (by simp), trivial⟩ rfl (toList_rawText_ne_nil htext)
        (.inl (endsStatement_concat (.inl hs))) hrest
    · exact .prepend (.statement hstart hpass hname hs .nil) hrest
  | @block cut p body ts brace close inner items hstart hpass hbrace hbody hclose h ihbody ih =>
    obtain ⟨-, hin, hts⟩ := infix_block p body ts brace close
    have hopening : brace.text = ['\x7b'] := hmarks brace (by simp) _ (by rw [hbrace]; rfl)
    have hhead : Placed front ((p ++ [brace]) ++ (body ++ close :: ts)) := by simpa using hplaced
    have hinner := ihbody hhead.right.left (hmarks.of_infix hin)
    -- the source text of the block has the brace behind what is in it
    have horder := hinner.standInOrder.append (sourceText [close])
    rw [← sourceText_append] at horder
    have hwhole : Placed front ((p ++ brace :: (body ++ [close])) ++ ts) := by
      simpa using hplaced
    have hsplit : p ++ brace :: (body ++ close :: ts) =
        (p ++ brace :: (body ++ [close])) ++ ts := by simp
    have hend := (IsStatement.block hstart hpass hbrace hbody hclose).ends
    rw [hsplit]
    exact .cons (standsAt_ofBlock hopening (hhead.lineOf_eq (by simp)) horder hinner.inked)
      (Node.raw_ofBlock _ _ _ _) (toList_raw_ofBlock_ne_nil hopening) (.inl hend)
      (ih hwhole.right (hmarks.of_infix hts))
  | @cutBlock p body brace inner hstart hpass hbrace hbody ih =>
    have hin : body <:+: p ++ brace :: body := ⟨p ++ [brace], [], by simp⟩
    have hopening : brace.text = ['\x7b'] := hmarks brace (by simp) _ (by rw [hbrace]; rfl)
    rw [List.append_cons] at hplaced
    have hinner := ih hplaced.right (hmarks.of_infix hin)
    exact .single (standsAt_ofBlock hopening (hplaced.lineOf_eq (by simp)) hinner.standInOrder
      hinner.inked) (Node.raw_ofBlock _ _ _ _) (toList_raw_ofBlock_ne_nil hopening)

/-! ## Nodes and fillers in a text -/

theorem Laid.eq_nil {front : List Char} {ns : List Node} (h : Laid front [] ns) : ns = [] := by
  generalize hts : [] = ts at h
  cases h with
  | last hg => rfl
  | @node _ g us ts n ns hg hn hraw hne hend h =>
    obtain ⟨-, hts⟩ := List.append_eq_nil_iff.1 hts.symm
    obtain ⟨rfl, -⟩ := List.append_eq_nil_iff.1 hts
    rw [hraw] at hne
    exact absurd rfl hne

/-- Tokens at the end of a text that are those of nodes and fillers are so in their text. -/
theorem Laid.tiles {cs front : List Char} {ts : List Token} {ns : List Node}
    (h : Laid front ts ns) (hts : ts <:+ tokens cs) : Tiles front (sourceText ts) ns := by
  induction h with
  | last hg => exact .last (.inr (hg.tokens_sourceText_of_suffix hts))
  | @node front g us ts n ns hg hn hraw hne hend h ih =>
    have hlexed := Lexed.of_infix (lexed_tokensFrom ⟨0, 0⟩ cs) hts.isInfix
    have hgap := hg.tokens_sourceText (hlexed.of_infix (List.prefix_append g (us ++ ts)).isInfix)
    -- the source text of a statement that the end of the text ends lacks the white space behind it
    rcases hend with hend | rfl
    · have hus : us <:+: g ++ (us ++ ts) := ⟨g, ts, List.append_assoc _ _ _⟩
      have hwhole := toList_rawText_of_endsStatement hend (hlexed.of_infix hus).marked
      rw [← hraw] at hwhole
      have hrest := ih (List.IsSuffix.trans ⟨g ++ us, List.append_assoc _ _ _⟩ hts)
      rw [sourceText_append, ← hwhole, ← List.append_assoc] at hrest
      rw [sourceText_append, sourceText_append, ← hwhole]
      exact .node hgap hn hrest
    · obtain rfl := h.eq_nil
      obtain ⟨e, hus, hblank⟩ := exists_sourceText_eq us
      rw [sourceText_append, List.append_nil, hus, ← hraw]
      exact .node hgap hn (.last (.inl hblank))

/-- **The source texts of the nodes** of a stylesheet and fillers in between make up its text. -/
theorem parse_tiles {css : String} {sheet : Sheet} (hparse : Sheet.parse css = .ok sheet) :
    Tiles [] (dropMark css.toList) sheet.nodes := by
  obtain ⟨items, hreads, hnodes⟩ := parse_eq_ok_iff.1 hparse
  have hlaid := hreads.laid (placed_tokens _) (marked_tokensFrom _ _)
  have htiles := hlaid.tiles List.suffix_rfl
  rw [hnodes]
  rwa [tokens, sourceText_tokensFrom] at htiles

/-- A stylesheet with several kinds of line breaks, in which the input ends a declaration. -/
def mixedCss : String :=
  "\uFEFF/* icons */\r\ntop: 0;\x0C@media print\r\n\x7b\r.a\x7bleft:0\x7d \x7d\n\n" ++
    ".b\x7b\x7d left: 1 "

/-- The rules are on the fifth and the seventh line. -/
theorem parse_tiles_mixedCss : ∃ sheet, Sheet.parse mixedCss = .ok sheet ∧
    sheet.rules.map (fun r => (r.raw, r.line)) = [(".a\x7bleft:0\x7d", 5), (".b\x7b\x7d", 7)] ∧
    Tiles [] (dropMark mixedCss.toList) sheet.nodes := by
  have hrules : (Sheet.parse mixedCss).toOption.map (fun sheet =>
      sheet.rules.map fun r => (r.raw, r.line)) =
        some [(".a\x7bleft:0\x7d", 5), (".b\x7b\x7d", 7)] := by
    decide +kernel
  obtain ⟨sheet, hparse, hlines⟩ := exists_eq_ok_of_toOption_map hrules
  exact ⟨sheet, hparse, hlines, parse_tiles hparse⟩

end GlyphTrim.Css
