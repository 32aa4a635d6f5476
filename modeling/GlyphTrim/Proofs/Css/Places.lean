import GlyphTrim.Proofs.Css.Nodes
import GlyphTrim.Proofs.Css.Reading
import GlyphTrim.Proofs.Css.Slice

/-!
# Reading at other places

What tokens read depends on their places only in the lines that the nodes keep
(`Reads.exists_of_same`).
-/

namespace GlyphTrim.Css

/-! ## Nodes on other lines -/

/-- The rule on another line. -/
def Rule.mapLine (f : Nat → Nat) (r : Rule) : Rule := { r with line := f r.line }

mutual

/-- The node on other lines. -/
def Node.mapLines (f : Nat → Nat) : Node → Node
  | .rule r => .rule (r.mapLine f)
  | .atRule head children => .atRule { head with line := f head.line } (Node.mapLinesAll f children)

/-- The nodes on other lines. -/
def Node.mapLinesAll (f : Nat → Nat) : List Node → List Node
  | [] => []
  | n :: ns => n.mapLines f :: Node.mapLinesAll f ns

end

mutual

theorem Node.rules_mapLines (f : Nat → Nat) : ∀ n : Node,
    (n.mapLines f).rules = n.rules.map (·.mapLine f)
  | .rule r => by simp [Node.mapLines, Node.rules]
  | .atRule head children => by
    rw [Node.mapLines, Node.rules, Node.rules, Node.rulesOfAll_mapLinesAll f children]

theorem Node.rulesOfAll_mapLinesAll (f : Nat → Nat) : ∀ ns : List Node,
    Node.rulesOfAll (Node.mapLinesAll f ns) = (Node.rulesOfAll ns).map (·.mapLine f)
  | [] => rfl
  | n :: ns => by
    rw [Node.mapLinesAll, Node.rulesOfAll, Node.rulesOfAll, List.map_append,
      Node.rules_mapLines f n, Node.rulesOfAll_mapLinesAll f ns]

end

mutual

theorem Node.mapLines_id : ∀ n : Node, n.mapLines id = n
  | .rule r => rfl
  | .atRule head children => by
    rw [Node.mapLines, Node.mapLinesAll_id children]
    rfl

theorem Node.mapLinesAll_id : ∀ ns : List Node, Node.mapLinesAll id ns = ns
  | [] => rfl
  | n :: ns => by rw [Node.mapLinesAll, Node.mapLines_id n, Node.mapLinesAll_id ns]

end

/-- The items on other lines. -/
def Items.mapLines (f : Nat → Nat) (items : Items) : Items :=
  ⟨items.declarations, Node.mapLinesAll f items.nodes⟩

theorem Items.mapLines_id (items : Items) : items.mapLines id = items := by
  rw [Items.mapLines, Node.mapLinesAll_id]

theorem Items.mapLines_consNode (f : Nat → Nat) (n : Node) (items : Items) :
    (items.consNode n).mapLines f = (items.mapLines f).consNode (n.mapLines f) :=
  rfl

theorem Node.mapLines_ofBlock (f : Nat → Nat) (text : String) (inner : Items) (raw : String)
    (line : Nat) : (Node.ofBlock text inner raw line).mapLines f =
      Node.ofBlock text (inner.mapLines f) raw (f line) := by
  unfold Node.ofBlock
  split <;> rfl

theorem Items.mapLines_consStatement (f : Nat → Nat) (text raw : String) (line : Nat)
    (items : Items) : (Items.consStatement text raw line items).mapLines f =
      Items.consStatement text raw (f line) (items.mapLines f) := by
  unfold Items.consStatement Node.ofStatement
  split
  · rename_i node h
    split at h
    · obtain rfl := Option.some.inj h
      rfl
    · exact absurd h (by simp)
  · rename_i h
    split at h
    · exact absurd h (by simp)
    · rfl

/-! ## What rules say -/

/-- What a rule says apart from its place and its source text. -/
def Rule.content (r : Rule) : String × List Declaration := (r.selector, r.declarations)

theorem Node.map_content_rulesOfAll {f g : Nat → Nat} {ns ns' : List Node}
    (h : Node.mapLinesAll f ns = Node.mapLinesAll g ns') :
    (Node.rulesOfAll ns).map Rule.content = (Node.rulesOfAll ns').map Rule.content := by
  have hrules := congrArg Node.rulesOfAll h
  rw [Node.rulesOfAll_mapLinesAll, Node.rulesOfAll_mapLinesAll] at hrules
  have hcontents := congrArg (List.map Rule.content) hrules
  rw [List.map_map, List.map_map] at hcontents
  exact hcontents

/-! ## The same tokens -/

variable {f g : Nat → Nat}

theorem kind_eq_of_key_eq {t u : Token} (h : t.key f = u.key g) : t.kind = u.kind :=
  congrArg (·.1) h

theorem isTrivia_eq_of_key_eq {t u : Token} (h : t.key f = u.key g) :
    t.isTrivia = u.isTrivia := by
  rw [Token.isTrivia, Token.isTrivia, kind_eq_of_key_eq h]

theorem Same.passes_eq {ts us : List Token} (h : Same f g ts us) (o : List Bracket) :
    passes o ts = passes o us := by
  induction ts generalizing us o with
  | nil =>
    obtain rfl := List.map_eq_nil_iff.1 h.symm
    rfl
  | cons t ts ih =>
    obtain ⟨u, us, rfl, hu, hus⟩ := h.exists_cons
    have hpass : passToken t o = passToken u o := by
      cases o <;> rw [passToken, passToken, kind_eq_of_key_eq hu]
    rw [passes, passes, hpass]
    exact congrArg _ (funext fun o₁ => ih hus o₁)

theorem Same.startsStatement {ts us : List Token} (h : Same f g ts us) (hts : StartsStatement ts) :
    StartsStatement us := by
  cases ts with
  | nil =>
    obtain rfl := List.map_eq_nil_iff.1 h.symm
    exact hts
  | cons t ts =>
    obtain ⟨u, us, rfl, hu, -⟩ := h.exists_cons
    intro v hv
    obtain rfl := Option.some.inj hv
    rw [← isTrivia_eq_of_key_eq hu]
    exact hts t rfl

theorem Same.lineOf_eq {ts us : List Token} (h : Same f g ts us) (hne : ts ≠ []) :
    f (lineOf ts) = g (lineOf us) := by
  obtain ⟨t, ts, rfl⟩ := List.exists_cons_of_ne_nil hne
  obtain ⟨u, us, rfl, hu, -⟩ := h.exists_cons
  exact congrArg (·.2.2) hu

theorem Same.trimmedText_eq {ts us : List Token} (h : Same f g ts us) :
    trimmedText ts = trimmedText us := by
  rw [trimmedText, trimmedText, h.sourceText_eq]

theorem Same.rawText_eq {ts us : List Token} (h : Same f g ts us) : rawText ts = rawText us := by
  rw [rawText, rawText, h.sourceText_eq]

/-- **The same tokens at other places** read the same items, on other lines. -/
theorem Reads.exists_of_same {cut : Bool} {ts us : List Token} {items : Items}
    (h : Reads cut ts items) (hsame : Same f g ts us) :
    ∃ items', Reads cut us items' ∧ items.mapLines f = items'.mapLines g := by
  induction h generalizing us with
  | done =>
    obtain rfl := List.map_eq_nil_iff.1 hsame.symm
    exact ⟨{}, .done, rfl⟩
  | trivia ht h ih =>
    obtain ⟨u, us, rfl, hu, hus⟩ := hsame.exists_cons
    obtain ⟨items', hreads, heq⟩ := ih hus
    rw [isTrivia_eq_of_key_eq hu] at ht
    exact ⟨items', .trivia ht hreads, heq⟩
  | @last cut p o hne hstart hpass ho =>
    have hne' : us ≠ [] := by
      rintro rfl
      exact hne (List.map_eq_nil_iff.1 hsame)
    rw [hsame.passes_eq] at hpass
    refine ⟨_, .last hne' (hsame.startsStatement hstart) hpass ho, ?_⟩
    rw [Items.mapLines_consStatement, Items.mapLines_consStatement, hsame.trimmedText_eq,
      hsame.rawText_eq, hsame.lineOf_eq hne]
    rfl
  | @semicolon cut p ts s items hstart hpass hs h ih =>
    obtain ⟨q, us', rfl, hq, hus'⟩ := hsame.exists_append
    obtain ⟨u, us, rfl, hu, hus⟩ := hus'.exists_cons
    obtain ⟨items', hreads, heq⟩ := ih hus
    have hqu : Same f g (p ++ [s]) (q ++ [u]) := hq.append (same_cons_iff.2 ⟨hu, same_nil⟩)
    rw [hq.passes_eq] at hpass
    rw [kind_eq_of_key_eq hu] at hs
    refine ⟨_, .semicolon (hq.startsStatement hstart) hpass hs hreads, ?_⟩
    rw [Items.mapLines_consStatement, Items.mapLines_consStatement, hq.trimmedText_eq,
      hqu.rawText_eq, hqu.lineOf_eq (by simp), heq]
  | @block cut p body ts brace close inner items hstart hpass hbrace hbody hclose h ihbody ih =>
    obtain ⟨q, us', rfl, hq, hus'⟩ := hsame.exists_append
    obtain ⟨brace', us', rfl, hbrace', hus'⟩ := hus'.exists_cons
    obtain ⟨body', us', rfl, hbody', hus'⟩ := hus'.exists_append
    obtain ⟨close', us, rfl, hclose', hus⟩ := hus'.exists_cons
    obtain ⟨inner', hinner, hinnerEq⟩ := ihbody hbody'
    obtain ⟨items', hreads, heq⟩ := ih hus
    have hhead : Same f g (p ++ [brace]) (q ++ [brace']) :=
      hq.append (same_cons_iff.2 ⟨hbrace', same_nil⟩)
    have hwhole : Same f g (p ++ brace :: (body ++ [close])) (q ++ brace' :: (body' ++ [close'])) :=
      hq.append (same_cons_iff.2
        ⟨hbrace', hbody'.append (same_cons_iff.2 ⟨hclose', same_nil⟩)⟩)
    rw [hq.passes_eq] at hpass
    rw [kind_eq_of_key_eq hbrace'] at hbrace
    rw [kind_eq_of_key_eq hclose'] at hclose
    refine ⟨_, .block (hq.startsStatement hstart) hpass hbrace hinner hclose hreads, ?_⟩
    rw [Items.mapLines_consNode, Items.mapLines_consNode, Node.mapLines_ofBlock,
      Node.mapLines_ofBlock, hq.trimmedText_eq, hwhole.rawText_eq, hhead.lineOf_eq (by simp),
      hinnerEq, heq]
  | @cutBlock p body brace inner hstart hpass hbrace hbody ih =>
    obtain ⟨q, us', rfl, hq, hus'⟩ := hsame.exists_append
    obtain ⟨brace', body', rfl, hbrace', hbody'⟩ := hus'.exists_cons
    obtain ⟨inner', hinner, hinnerEq⟩ := ih hbody'
    have hhead : Same f g (p ++ [brace]) (q ++ [brace']) :=
      hq.append (same_cons_iff.2 ⟨hbrace', same_nil⟩)
    rw [hq.passes_eq] at hpass
    rw [kind_eq_of_key_eq hbrace'] at hbrace
    refine ⟨_, .cutBlock (hq.startsStatement hstart) hpass hbrace hinner, ?_⟩
    rw [Items.mapLines_consNode, Items.mapLines_consNode, Node.mapLines_ofBlock,
      Node.mapLines_ofBlock, hq.trimmedText_eq, hsame.rawText_eq, hhead.lineOf_eq (by simp),
      hinnerEq]
    rfl

/-- A text falls into the same tokens on lines that correspond. -/
theorem same_tokensFrom_of_breaks (l l' : Location) (cs : List Char)
    (h : ∀ n, f (l.breaks + n + 1) = g (l'.breaks + n + 1)) :
    Same f g (tokensFrom l cs) (tokensFrom l' cs) := by
  revert h
  induction l, cs using tokensFrom.induct generalizing l' with
  | case1 =>
    intro h
    rw [tokensFrom, tokensFrom]
    exact same_nil
  | case2 l c cs kind m hread text ih =>
    intro h
    rw [tokensFrom, tokensFrom, hread]
    refine same_cons_iff.2 ⟨?_, ih _ (forall_breaks_advance h text)⟩
    simp only [Token.key, Prod.mk.injEq, true_and]
    exact h 0

/-- A text falls into the same tokens wherever it stands. -/
theorem same_tokensFrom (l l' : Location) (cs : List Char) :
    Same (fun _ => 0) (fun _ => 0) (tokensFrom l cs) (tokensFrom l' cs) := by
  apply same_tokensFrom_of_breaks
  exact fun n => rfl

end GlyphTrim.Css
