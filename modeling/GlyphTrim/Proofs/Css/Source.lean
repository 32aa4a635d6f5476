import GlyphTrim.Proofs.Css.Nodes
import GlyphTrim.Proofs.Css.Reading
import GlyphTrim.Proofs.Css.Token
import GlyphTrim.Proofs.Text.Trim

/-!
# Where the source text of a node stands

Every node of a stylesheet keeps a part of its text, and the nodes in the block of an at-rule stand
behind the brace in the text of the at-rule (`parse_standIn`).
-/

namespace GlyphTrim.Css

open Text

/-- The nodes in the block of an at-rule stand behind the brace that opens it. -/
def Node.HoldsChildren : Node → Prop
  | .rule _ => True
  | .atRule head children => ∀ n ∈ Node.withinAll children,
    ∃ a b, head.raw.toList = a ++ '\x7b' :: b ∧ n.raw.toList <:+: b

/-- The nodes, at all depths, are parts of a text and do not end in white space, and at-rules hold
what stands in their blocks. -/
structure StandIn (ns : List Node) (cs : List Char) : Prop where
  isInfix : ∀ n ∈ Node.withinAll ns, n.raw.toList <:+: cs
  endsInk : ∀ n ∈ Node.withinAll ns, EndsInk n.raw.toList
  holdsChildren : ∀ n ∈ Node.withinAll ns, n.HoldsChildren

theorem standIn_nil (cs : List Char) : StandIn [] cs := by
  constructor <;> simp [Node.withinAll]

theorem StandIn.mono {ns : List Node} {cs cs' : List Char} (h : StandIn ns cs)
    (hcs : cs <:+: cs') : StandIn ns cs' :=
  ⟨fun n hn => (h.isInfix n hn).trans hcs, h.endsInk, h.holdsChildren⟩

theorem StandIn.cons {n : Node} {ns : List Node} {cs : List Char} (hn : StandIn [n] cs)
    (hns : StandIn ns cs) : StandIn (n :: ns) cs := by
  have hmem : ∀ m ∈ Node.withinAll (n :: ns), m ∈ Node.withinAll [n] ∨ m ∈ Node.withinAll ns := by
    intro m hm
    rw [← List.mem_append, ← Node.withinAll_append]
    exact hm
  constructor
  · intro m hm
    exact (hmem m hm).elim (hn.isInfix m) (hns.isInfix m)
  · intro m hm
    exact (hmem m hm).elim (hn.endsInk m) (hns.endsInk m)
  · intro m hm
    exact (hmem m hm).elim (hn.holdsChildren m) (hns.holdsChildren m)

theorem toList_rawText (ts : List Token) :
    (rawText ts).toList = (sourceText ts).rdropWhile isBlank := by
  rw [rawText, String.toList_ofList]
  rfl

theorem sourceText_isInfix {ts us : List Token} (h : ts <:+: us) :
    sourceText ts <:+: sourceText us := by
  obtain ⟨a, b, rfl⟩ := h
  rw [sourceText_append, sourceText_append]
  exact ⟨sourceText a, sourceText b, rfl⟩

theorem rawText_isInfix (ts : List Token) : (rawText ts).toList <:+: sourceText ts := by
  rw [toList_rawText]
  exact (List.rdropWhile_prefix isBlank _).isInfix

theorem endsInk_rawText (ts : List Token) : EndsInk (rawText ts).toList := by
  rw [toList_rawText]
  exact endsInk_rdropWhile (sourceText ts)

/-- The source text is not cut in front of a mark. -/
theorem toList_rawText_append_cons {p q : List Token} {t : Token} {m : Char} (ht : t.text = [m])
    (hm : isBlank m = false) :
    (rawText (p ++ t :: q)).toList = sourceText p ++ m :: (sourceText q).rdropWhile isBlank := by
  have hsource : sourceText (p ++ t :: q) = sourceText p ++ m :: sourceText q := by
    rw [sourceText_append, sourceText_cons, ht]
    rfl
  rw [toList_rawText, hsource, rdropWhile_append_cons hm]

/-- The two kinds of nodes with a block. -/
theorem Node.ofBlock_cases (text : String) (inner : Items) (raw : String) (line : Nat) :
    Node.ofBlock text inner raw line = .rule ⟨text, inner.declarations, line, raw⟩ ∨
      ∃ rest, text.toList = '@' :: rest ∧ Node.ofBlock text inner raw line =
        .atRule ⟨(splitAtPrelude rest).1, (splitAtPrelude rest).2, inner.declarations, line, raw⟩
          inner.nodes := by
  unfold Node.ofBlock
  split
  · rename_i rest h
    exact .inr ⟨rest, h, rfl⟩
  · exact .inl rfl

/-- A node with a block stands in its text if the nodes in the block do. -/
theorem standIn_ofBlock {p rest : List Token} {brace : Token} {inner : Items} (text : String)
    (line : Nat) (hbrace : brace.text = ['\x7b']) (h : StandIn inner.nodes (sourceText rest)) :
    StandIn [.ofBlock text inner (rawText (p ++ brace :: rest)) line]
      (sourceText (p ++ brace :: rest)) := by
  have hsource : sourceText (p ++ brace :: rest) = sourceText p ++ '\x7b' :: sourceText rest := by
    rw [sourceText_append, sourceText_cons, hbrace]
    rfl
  have hrest : sourceText rest <:+: sourceText (p ++ brace :: rest) := by
    rw [hsource]
    exact ⟨sourceText p ++ ['\x7b'], [], by simp⟩
  have hraw : (rawText (p ++ brace :: rest)).toList =
      sourceText p ++ '\x7b' :: (sourceText rest).rdropWhile isBlank := by
    rw [toList_rawText, hsource, rdropWhile_append_cons (by decide)]
  rcases Node.ofBlock_cases text inner (rawText (p ++ brace :: rest)) line with heq | ⟨_, _, heq⟩
  · rw [heq]
    constructor <;> intro n hn
    all_goals
      obtain rfl : n = _ := by simpa [Node.withinAll, Node.within] using hn
    · exact rawText_isInfix _
    · exact endsInk_rawText _
    · trivial
  · rw [heq]
    constructor <;> intro n hn <;> rw [Node.withinAll, Node.within, Node.withinAll,
      List.append_nil, List.mem_cons] at hn <;> rcases hn with rfl | hn
    · exact rawText_isInfix _
    · exact (h.isInfix n hn).trans hrest
    · exact endsInk_rawText _
    · exact h.endsInk n hn
    · intro m hm
      exact ⟨_, _, hraw, infix_rdropWhile (h.isInfix m hm) (h.endsInk m hm)⟩
    · exact h.holdsChildren n hn

/-- A statement without a block stands in its text. -/
theorem standIn_consStatement {p used : List Token} {items : Items} (text : String) (line : Nat)
    (hp : p <:+: used) (h : StandIn items.nodes (sourceText used)) :
    StandIn (Items.consStatement text (rawText p) line items).nodes (sourceText used) := by
  unfold Items.consStatement Node.ofStatement
  split
  · rename_i node hnode
    split at hnode
    · obtain rfl := Option.some.inj hnode
      refine StandIn.cons ?_ h
      constructor <;> intro n hn
      all_goals
        obtain rfl : n = _ := by simpa [Node.withinAll, Node.within] using hn
      · exact (rawText_isInfix _).trans (sourceText_isInfix hp)
      · exact endsInk_rawText _
      · intro m hm
        exact absurd hm (by simp [Node.withinAll])
    · exact absurd hnode (by simp)
  · exact h

/-! ## Parts of a statement -/

theorem infix_semicolon (p ts : List Token) (s : Token) :
    p ++ [s] <:+: p ++ s :: ts ∧ ts <:+: p ++ s :: ts :=
  ⟨⟨[], ts, by simp⟩, ⟨p ++ [s], [], by simp⟩⟩

/-- A statement with a block, the block, and what stands behind it. -/
theorem infix_block (p body ts : List Token) (brace close : Token) :
    p ++ brace :: (body ++ [close]) <:+: p ++ brace :: (body ++ close :: ts) ∧
      body <:+: p ++ brace :: (body ++ close :: ts) ∧
      ts <:+: p ++ brace :: (body ++ close :: ts) := by
  refine ⟨⟨[], ts, ?_⟩, ⟨p ++ [brace], close :: ts, ?_⟩,
    ⟨p ++ brace :: (body ++ [close]), [], ?_⟩⟩ <;> simp

/-- **The nodes that tokens read** stand in the text of the tokens. -/
theorem Reads.standIn {cut : Bool} {used : List Token} {items : Items} (h : Reads cut used items)
    (hmarks : Marked used) : StandIn items.nodes (sourceText used) := by
  induction h with
  | done => exact standIn_nil _
  | @trivia cut t ts items ht h ih =>
    have hts : ts <:+: t :: ts := (List.suffix_cons t ts).isInfix
    exact (ih (hmarks.of_infix hts)).mono (sourceText_isInfix hts)
  | last hne hstart hpass ho => exact standIn_consStatement _ _ List.infix_rfl (standIn_nil _)
  | @semicolon cut p ts s items hstart hpass hs h ih =>
    obtain ⟨hps, hts⟩ := infix_semicolon p ts s
    have hrest := (ih (hmarks.of_infix hts)).mono (sourceText_isInfix hts)
    exact standIn_consStatement _ _ hps hrest
  | @block cut p body ts brace close inner items hstart hpass hbrace hbody hclose h ihbody ih =>
    obtain ⟨hbs, hin, hts⟩ := infix_block p body ts brace close
    have hopening : brace.text = ['\x7b'] := hmarks brace (by simp) _ (by rw [hbrace]; rfl)
    have hinner := (ihbody (hmarks.of_infix hin)).mono
      (sourceText_isInfix (List.prefix_append body [close]).isInfix)
    have hnode := standIn_ofBlock (p := p) (trimmedText p) (lineOf (p ++ [brace])) hopening hinner
    have hrest := (ih (hmarks.of_infix hts)).mono (sourceText_isInfix hts)
    exact (hnode.mono (sourceText_isInfix hbs)).cons hrest
  | @cutBlock p body brace inner hstart hpass hbrace hbody ih =>
    have hin : body <:+: p ++ brace :: body := ⟨p ++ [brace], [], by simp⟩
    have hopening : brace.text = ['\x7b'] := hmarks brace (by simp) _ (by rw [hbrace]; rfl)
    exact standIn_ofBlock _ _ hopening (ih (hmarks.of_infix hin))

/-- The nodes of a stylesheet stand in its text. -/
theorem parse_standIn {css : String} {sheet : Sheet} (h : Sheet.parse css = .ok sheet) :
    StandIn sheet.nodes (Text.dropMark css.toList) := by
  obtain ⟨items, hreads, hnodes⟩ := parse_eq_ok_iff.1 h
  have hstand := hreads.standIn (marked_tokensFrom _ _)
  rw [tokens, sourceText_tokensFrom] at hstand
  rw [hnodes]
  exact hstand

end GlyphTrim.Css
