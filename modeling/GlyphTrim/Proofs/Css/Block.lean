import GlyphTrim.Proofs.Css.Balance
import GlyphTrim.Proofs.Css.Slice
import GlyphTrim.Proofs.Css.Source

/-!
# Statements with a block

`IsBlock ts n` says that the tokens `ts` are one statement with a whole block, which makes the node
`n`. In a stylesheet that closes its brackets every node comes from such tokens or has no block at
all (`Reads.exists_isBlock`), and which of the two it is can be told from its source text
(`hasBlock_iff_exists_isBlock`).
-/

namespace GlyphTrim.Css

open Text

/-- One statement with a whole block. -/
inductive IsBlock : List Token → Node → Prop
  | intro {p body : List Token} {brace close : Token} {inner : Items}
      (hstart : StartsStatement p) (hpass : passes [] p = some [])
      (hbrace : brace.kind = .opening .curly) (hbody : Reads false body inner)
      (hclose : close.kind = .closing .curly) :
      IsBlock (p ++ brace :: (body ++ [close]))
        (.ofBlock (trimmedText p) inner (rawText (p ++ brace :: (body ++ [close])))
          (lineOf (p ++ [brace])))

/-! ## Blocks in the source text -/

/-- Whether a brace follows the name and the parameters in the source text. -/
def AtRule.hasBlock (h : AtRule) : Bool :=
  let behindName := (h.raw.toList.dropWhile isBlank).drop (1 + h.name.toList.length)
  let behindParams := (behindName.dropWhile isBlank).drop h.params.toList.length
  (behindParams.dropWhile isBlank).head? == some '\x7b'

/-- Whether a node has a block of its own. -/
def Node.hasBlock : Node → Bool
  | .rule _ => true
  | .atRule head _ => head.hasBlock

/-- The parameters of an at-rule stand behind its name and white space. -/
theorem exists_splitAtPrelude {rest : List Char} (hink : EndsInk ('@' :: rest)) :
    ∃ b, rest = (splitAtPrelude rest).1.toList ++ (b ++ (splitAtPrelude rest).2.toList) ∧
      (∀ c ∈ b, isBlank c = true) ∧
      ∀ c ∈ (splitAtPrelude rest).2.toList.head?, isBlank c = false := by
  simp only [splitAtPrelude, String.toList_ofList]
  generalize hends : (fun c => !(isBlank c || c == '(' || c == '"' || c == '\'')) = continues
  have hrest : rest = rest.takeWhile continues ++ rest.dropWhile continues :=
    List.takeWhile_append_dropWhile.symm
  have hafter : EndsInk (rest.dropWhile continues) := by
    by_cases hne : rest.dropWhile continues = []
    · intro c hc
      exact absurd hc (by simp [hne])
    · rw [hrest, ← List.cons_append] at hink
      exact hink.of_append hne
  rw [trimChars_of_endsInk hafter]
  generalize rest.dropWhile continues = after at *
  refine ⟨after.takeWhile isBlank, ?_, fun c hc => List.mem_takeWhile_imp hc, ?_⟩
  · rw [List.takeWhile_append_dropWhile]
    exact hrest
  · intro c hc
    have h := List.head?_dropWhile_not isBlank after
    rw [hc] at h
    simpa using h

/-- A brace follows in the source text exactly if it follows the prelude. -/
theorem AtRule.hasBlock_eq {rest b tail : List Char} {declarations : List Declaration} {line : Nat}
    {raw : String} (hb : ∀ c ∈ b, isBlank c = true) (hink : EndsInk ('@' :: rest))
    (hraw : raw.toList = b ++ ('@' :: rest ++ tail)) :
    AtRule.hasBlock ⟨(splitAtPrelude rest).1, (splitAtPrelude rest).2, declarations, line, raw⟩ =
      ((tail.dropWhile isBlank).head? == some '\x7b') := by
  obtain ⟨b', hrest, hb', hhead⟩ := exists_splitAtPrelude hink
  generalize (splitAtPrelude rest).1 = name at *
  generalize (splitAtPrelude rest).2 = params at *
  have hblanks : raw.toList.dropWhile isBlank =
      '@' :: name.toList ++ (b' ++ (params.toList ++ tail)) := by
    rw [hraw, List.dropWhile_append_of_pos hb, List.cons_append, List.dropWhile_cons_of_neg (by decide),
      hrest]
    simp
  have hname : (raw.toList.dropWhile isBlank).drop (1 + name.toList.length) =
      b' ++ (params.toList ++ tail) := by
    rw [hblanks]
    exact List.drop_left' (by rw [List.length_cons, Nat.add_comm])
  have hparams : (((b' ++ (params.toList ++ tail)).dropWhile isBlank).drop
      params.toList.length).dropWhile isBlank = tail.dropWhile isBlank := by
    rw [List.dropWhile_append_of_pos hb']
    by_cases hempty : params.toList = []
    · rw [hempty]
      simp [List.dropWhile_idempotent]
    · obtain ⟨c, cs, hcs⟩ := List.exists_cons_of_ne_nil hempty
      have hc : isBlank c = false := hhead c (by rw [hcs]; rfl)
      rw [hcs, List.cons_append, List.dropWhile_cons_of_neg (by simp [hc]), ← List.cons_append,
        List.drop_left]
  simp only [AtRule.hasBlock]
  rw [hname, hparams]

/-! ## Statements with and without a block -/

/-- The source text of a prelude is its trimmed text with white space around it. -/
theorem exists_sourceText_of_trimmedText {p : List Token} {x : Char} {rest : List Char}
    (hp : (trimmedText p).toList = x :: rest) :
    ∃ b e, sourceText p = b ++ (x :: rest ++ e) ∧ (∀ c ∈ b, isBlank c = true) ∧
      (∀ c ∈ e, isBlank c = true) ∧ EndsInk (x :: rest) := by
  obtain ⟨b, e, hsource, hb, he⟩ := exists_trimChars (sourceText p)
  have hink := endsInk_trimChars (sourceText p)
  rw [trimmedText, String.toList_ofList] at hp
  rw [hp] at hsource hink
  exact ⟨b, e, hsource, hb, he, hink⟩

/-- The block of an at-rule can be told from the mark behind the prelude. -/
theorem AtRule.hasBlock_rawText_append_cons {p q : List Token} {t : Token} {m : Char}
    {rest : List Char} {declarations : List Declaration} {line : Nat}
    (hp : (trimmedText p).toList = '@' :: rest) (ht : t.text = [m]) (hm : isBlank m = false) :
    AtRule.hasBlock ⟨(splitAtPrelude rest).1, (splitAtPrelude rest).2, declarations, line,
      rawText (p ++ t :: q)⟩ = (m == '\x7b') := by
  obtain ⟨b, e, hsource, hb, he, hink⟩ := exists_sourceText_of_trimmedText hp
  have hraw : (rawText (p ++ t :: q)).toList =
      b ++ ('@' :: rest ++ (e ++ m :: (sourceText q).rdropWhile isBlank)) := by
    rw [toList_rawText_append_cons ht hm, hsource]
    simp
  rw [AtRule.hasBlock_eq hb hink hraw, List.dropWhile_append_of_pos he,
    List.dropWhile_cons_of_neg (by simp [hm])]
  rfl

/-- A prelude that ends the input or the block around it has no block. -/
theorem AtRule.hasBlock_rawText {p : List Token} {rest : List Char}
    {declarations : List Declaration} {line : Nat}
    (hp : (trimmedText p).toList = '@' :: rest) :
    AtRule.hasBlock ⟨(splitAtPrelude rest).1, (splitAtPrelude rest).2, declarations, line,
      rawText p⟩ = false := by
  obtain ⟨b, e, hsource, hb, he, hink⟩ := exists_sourceText_of_trimmedText hp
  have hne : '@' :: rest ≠ [] := List.cons_ne_nil _ _
  have hraw : (rawText p).toList = b ++ ('@' :: rest ++ []) := by
    rw [toList_rawText, hsource, ← List.append_assoc,
      (hink.append hne b).rdropWhile_append (by simp), List.rdropWhile_eq_nil_iff.2 he,
      List.append_assoc]
  rw [AtRule.hasBlock_eq hb hink hraw]
  rfl

/-- The statements with a whole block have a block. -/
theorem IsBlock.hasBlock_eq_true {ts : List Token} {n : Node} (h : IsBlock ts n)
    (hmarks : Marked ts) : n.hasBlock = true := by
  obtain @⟨p, body, brace, close, inner, hstart, hpass, hbrace, hbody, hclose⟩ := h
  have hopening : brace.text = ['\x7b'] := hmarks brace (by simp) _ (by rw [hbrace]; rfl)
  rcases Node.ofBlock_cases (trimmedText p) inner (rawText (p ++ brace :: (body ++ [close])))
    (lineOf (p ++ [brace])) with heq | ⟨rest, hp, heq⟩ <;> rw [heq]
  · rfl
  · exact AtRule.hasBlock_rawText_append_cons hp hopening (by decide)

theorem Node.within_ofBlock {text raw : String} {inner : Items} {line : Nat} {n : Node}
    (hn : n ∈ (Node.ofBlock text inner raw line).within) :
    n = .ofBlock text inner raw line ∨ n ∈ Node.withinAll inner.nodes := by
  rcases Node.ofBlock_cases text inner raw line with heq | ⟨rest, -, heq⟩ <;>
    rw [heq] at hn ⊢ <;> rw [Node.within] at hn
  · exact .inl (List.mem_singleton.1 hn)
  · exact List.mem_cons.1 hn

theorem Items.mem_withinAll_consStatement {text raw : String} {line : Nat} {items : Items}
    {n : Node} (hn : n ∈ Node.withinAll (Items.consStatement text raw line items).nodes) :
    n ∈ Node.withinAll items.nodes ∨ ∃ rest, text.toList = '@' :: rest ∧
      n = .atRule ⟨(splitAtPrelude rest).1, (splitAtPrelude rest).2, [], line, raw⟩ [] := by
  unfold Items.consStatement Node.ofStatement at hn
  split at hn
  · rename_i node hnode
    split at hnode
    · rename_i rest htext
      obtain rfl := Option.some.inj hnode
      rw [Items.consNode, Node.withinAll, List.mem_append] at hn
      rcases hn with hn | hn
      · rw [Node.within, Node.withinAll] at hn
        exact .inr ⟨rest, htext, List.mem_singleton.1 hn⟩
      · exact .inl hn
    · exact absurd hnode (by simp)
  · exact .inl hn

/-- **The nodes of whole statements** are read from a part of the tokens that is one statement with
a block, or have no block. -/
theorem Reads.exists_isBlock {used : List Token} {items : Items} (h : Reads false used items)
    (hmarks : Marked used) {n : Node} (hn : n ∈ Node.withinAll items.nodes) :
    (∃ ts, ts <:+: used ∧ IsBlock ts n) ∨ n.hasBlock = false := by
  have hmono : ∀ {ts us : List Token}, ts <:+: us → (∃ vs, vs <:+: ts ∧ IsBlock vs n) →
      ∃ vs, vs <:+: us ∧ IsBlock vs n := by
    rintro ts us hts ⟨vs, hvs, hblock⟩
    exact ⟨vs, hvs.trans hts, hblock⟩
  obtain ⟨cut, hcut, hreads⟩ : ∃ cut, false = cut ∧ Reads cut used items := ⟨false, rfl, h⟩
  clear h
  induction hreads with
  | done => exact absurd hn (by simp [Node.withinAll])
  | @trivia cut t ts items ht h ih =>
    have hts : ts <:+: t :: ts := (List.suffix_cons t ts).isInfix
    exact (ih (hmarks.of_infix hts) hn hcut).imp_left (hmono hts)
  | @last cut p o hne hstart hpass ho =>
    rcases Items.mem_withinAll_consStatement hn with hn | ⟨rest, hp, rfl⟩
    · exact absurd hn (by simp [Node.withinAll])
    · exact .inr (AtRule.hasBlock_rawText hp)
  | @semicolon cut p ts s items hstart hpass hs h ih =>
    obtain ⟨-, hts⟩ := infix_semicolon p ts s
    rcases Items.mem_withinAll_consStatement hn with hn | ⟨rest, hp, rfl⟩
    · exact (ih (hmarks.of_infix hts) hn hcut).imp_left (hmono hts)
    · have hmark : s.text = [';'] := hmarks s (by simp) _ (by rw [hs]; rfl)
      exact .inr (AtRule.hasBlock_rawText_append_cons hp hmark (by decide))
  | @block cut p body ts brace close inner items hstart hpass hbrace hbody hclose h ihbody ih =>
    obtain ⟨hbs, hin, hts⟩ := infix_block p body ts brace close
    rw [Items.consNode, Node.withinAll, List.mem_append] at hn
    rcases hn with hn | hn
    · rcases Node.within_ofBlock hn with rfl | hn
      · exact .inl ⟨_, hbs, .intro hstart hpass hbrace hbody hclose⟩
      · exact (ihbody (hmarks.of_infix hin) hn rfl).imp_left (hmono hin)
    · exact (ih (hmarks.of_infix hts) hn hcut).imp_left (hmono hts)
  | cutBlock hstart hpass hbrace hbody ih => exact absurd hcut (by simp)

/-- In a stylesheet that closes its brackets the nodes with a block are the statements with a block
of its text. -/
theorem hasBlock_iff_exists_isBlock {css : String} {sheet : Sheet}
    (hparse : Sheet.parse css = .ok sheet) (hclosed : Balanced (tokens (dropMark css.toList)))
    {n : Node} (hn : n ∈ Node.withinAll sheet.nodes) :
    n.hasBlock = true ↔ ∃ ts, Lexed ts ∧ IsBlock ts n := by
  constructor
  · intro hblock
    obtain ⟨items, hreads, hnodes⟩ := parse_eq_ok_iff.1 hparse
    have hlexed := lexed_tokensFrom ⟨0, 0⟩ (dropMark css.toList)
    rw [hnodes] at hn
    rcases (hreads.of_balanced hclosed).exists_isBlock hlexed.marked hn with ⟨ts, hts, h⟩ | hnone
    · exact ⟨ts, hlexed.of_infix hts, h⟩
    · exact absurd hblock (by simp [hnone])
  · rintro ⟨ts, hlexed, h⟩
    exact h.hasBlock_eq_true hlexed.marked

end GlyphTrim.Css
