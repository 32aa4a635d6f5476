import GlyphTrim.Proofs.Css.Block
import GlyphTrim.Proofs.Css.Rejection

/-!
# Single statements

Every node of a stylesheet is read from tokens that are one statement
(`Reads.exists_statement`). All statements but the last are *closed*: they close their brackets and
end with a semicolon or a closing brace. Behind closed statements others can be read
(`Reads.append`).
-/

namespace GlyphTrim.Css

open Text

/-! ## Tokens that end with a statement -/

/-- The tokens end with a semicolon or a closing brace, if there are any. -/
def EndsStatement (ts : List Token) : Prop :=
  ∀ t ∈ ts.getLast?, t.kind = .semicolon ∨ t.kind = .closing .curly

instance (ts : List Token) : Decidable (EndsStatement ts) :=
  inferInstanceAs (Decidable (∀ t ∈ ts.getLast?, t.kind = .semicolon ∨ t.kind = .closing .curly))

theorem EndsStatement.of_append {p ts : List Token} (h : EndsStatement (p ++ ts)) :
    EndsStatement ts := by
  intro t ht
  refine h t ?_
  have hne : ts ≠ [] := by
    rintro rfl
    exact absurd ht (by simp)
  rwa [List.getLast?_append_of_ne_nil p hne]

theorem EndsStatement.of_cons {t : Token} {ts : List Token} (h : EndsStatement (t :: ts)) :
    EndsStatement ts :=
  .of_append (p := [t]) h

theorem endsStatement_concat {ts : List Token} {t : Token}
    (ht : t.kind = .semicolon ∨ t.kind = .closing .curly) : EndsStatement (ts ++ [t]) := by
  intro u hu
  obtain rfl : t = u := by simpa using hu
  exact ht

/-- As a stylesheet, the text closes its brackets and ends with a semicolon or a closing brace. -/
def Closed (cs : List Char) : Prop := Balanced (tokens cs) ∧ EndsStatement (tokens cs)

instance (cs : List Char) : Decidable (Closed cs) :=
  inferInstanceAs (Decidable (Balanced (tokens cs) ∧ EndsStatement (tokens cs)))

/-- What a prelude goes over ends with no mark, unless a bracket is open. -/
theorem not_endsStatement_of_passes {p : List Token} (hne : p ≠ [])
    (hpass : passes [] p = some []) : ¬EndsStatement p := by
  intro hend
  obtain ⟨q, t, rfl⟩ := (List.eq_nil_or_concat' p).resolve_left hne
  obtain ⟨o, ho, hlast⟩ := passes_append_eq_some_iff.1 hpass
  obtain ⟨o', ht, ho'⟩ := passes_cons_eq_some_iff.1 hlast
  obtain rfl : o' = [] := Option.some.inj ho'
  cases o with
  | nil => rcases hend t (by simp) with hk | hk <;> simp [passToken, hk] at ht
  | cons b bs =>
    rcases hend t (by simp) with hk | hk
    · simp [passToken, hk] at ht
    · -- the outermost bracket that is open is no brace
      have hbottom := getLast?_of_passes ho (by simp)
      simp only [passToken, hk, Option.some.injEq] at ht
      split_ifs at ht with hb
      rw [hb, ht] at hbottom
      exact hbottom rfl

/-! ## Items one after the other -/

/-- The items of one list in front of those of another one. -/
def Items.append (a b : Items) : Items := ⟨a.declarations ++ b.declarations, a.nodes ++ b.nodes⟩

theorem Items.consNode_append (n : Node) (a b : Items) :
    (a.consNode n).append b = (a.append b).consNode n := rfl

theorem Items.consStatement_append (text raw : String) (line : Nat) (a b : Items) :
    (Items.consStatement text raw line a).append b =
      Items.consStatement text raw line (a.append b) := by
  unfold Items.consStatement
  split
  · rfl
  · simp [Items.append, Items.consDeclaration]

theorem Items.append_assoc (a b c : Items) : (a.append b).append c = a.append (b.append c) := by
  simp [Items.append, List.append_assoc]

theorem Items.append_nil (a : Items) : a.append {} = a := by
  simp [Items.append]

theorem Items.nil_append (a : Items) : Items.append {} a = a := rfl

/-- A statement put behind others, and what follows it. -/
theorem Items.append_consStatement_nil (a b : Items) (text raw : String) (line : Nat) :
    (a.append (Items.consStatement text raw line {})).append b =
      a.append (Items.consStatement text raw line b) := by
  rw [Items.append_assoc, Items.consStatement_append, Items.nil_append]

theorem Items.append_consNode_nil (a b : Items) (n : Node) :
    (a.append (Items.consNode n {})).append b = a.append (b.consNode n) := by
  rw [Items.append_assoc, Items.consNode_append, Items.nil_append]

/-- **Behind closed statements** others can be read. -/
theorem Reads.append {cut : Bool} {ts us : List Token} {a b : Items} (h : Reads false ts a)
    (hend : EndsStatement ts) (h' : Reads cut us b) : Reads cut (ts ++ us) (a.append b) := by
  generalize hcut : false = cut' at h
  induction h with
  | done => exact h'
  | trivia ht h ih => exact .trivia ht (ih hend.of_cons hcut)
  | last hne hstart hpass ho =>
    obtain rfl := ho.resolve_right (by simp [← hcut])
    exact absurd hend (not_endsStatement_of_passes hne hpass)
  | @semicolon cut' p ts s items hstart hpass hs h ih =>
    have hrest := ih (EndsStatement.of_append (p := p) hend).of_cons hcut
    rw [Items.consStatement_append, List.append_assoc, List.cons_append]
    exact .semicolon hstart hpass hs hrest
  | @block cut' p body ts brace close inner items hstart hpass hbrace hbody hclose h ihbody ih =>
    have hend' : EndsStatement (close :: ts) :=
      (EndsStatement.of_append (p := p) hend).of_cons.of_append
    have hrest := ih hend'.of_cons hcut
    rw [Items.consNode_append, List.append_assoc, List.cons_append, List.append_assoc,
      List.cons_append]
    exact .block hstart hpass hbrace hbody hclose hrest
  | cutBlock hstart hpass hbrace hbody ih => exact absurd hcut (by simp)

/-- Whole statements can also stand where the input ends. -/
theorem Reads.mono {ts : List Token} {items : Items} (h : Reads false ts items) (cut : Bool) :
    Reads cut ts items := by
  generalize hcut : false = cut' at h
  induction h with
  | done => exact .done
  | trivia ht h ih => exact .trivia ht (ih hcut)
  | last hne hstart hpass ho =>
    exact .last hne hstart hpass (.inl (ho.resolve_right (by simp [← hcut])))
  | semicolon hstart hpass hs h ih => exact .semicolon hstart hpass hs (ih hcut)
  | block hstart hpass hbrace hbody hclose h ihbody ih =>
    exact .block hstart hpass hbrace hbody hclose (ih hcut)
  | cutBlock hstart hpass hbrace hbody ih => exact absurd hcut (by simp)

/-! ## The statement of a node -/

/-- The text stands in front of the block or the end of the node's statement. -/
def Node.IsCalled : Node → String → Prop
  | .rule r, text => r.selector = text
  | .atRule _ _, text => ∃ rest, text.toList = '@' :: rest

/-- The tokens are one closed statement, which makes the node. -/
structure IsStatement (ts : List Token) (n : Node) : Prop where
  reads : Reads false ts ⟨[], [n]⟩
  ends : EndsStatement ts
  raw_eq : n.raw = rawText ts
  called : ∃ p q, ts = p ++ q ∧ n.IsCalled (trimmedText p)

/-- The tokens are one statement, which makes the node; the end of the input or of the block ends
it. -/
structure IsLastStatement (cut : Bool) (ts : List Token) (n : Node) : Prop where
  reads : Reads cut ts ⟨[], [n]⟩
  raw_eq : n.raw = rawText ts
  called : ∃ p q, ts = p ++ q ∧ n.IsCalled (trimmedText p)

theorem Node.isCalled_ofBlock (text : String) (inner : Items) (raw : String) (line : Nat) :
    (Node.ofBlock text inner raw line).IsCalled text := by
  rcases Node.ofBlock_cases text inner raw line with heq | ⟨rest, htext, heq⟩ <;> rw [heq]
  · rfl
  · exact ⟨rest, htext⟩

theorem Node.raw_ofBlock (text : String) (inner : Items) (raw : String) (line : Nat) :
    (Node.ofBlock text inner raw line).raw = raw := by
  rcases Node.ofBlock_cases text inner raw line with heq | ⟨_, _, heq⟩ <;> rw [heq] <;> rfl

/-- A statement without a block makes a node or none. -/
theorem Items.consStatement_cases (text raw : String) (line : Nat) :
    (∃ n : Node, n.raw = raw ∧ n.within = [n] ∧ n.IsCalled text ∧
      ∀ items, Items.consStatement text raw line items = items.consNode n) ∨
    ∀ items, (Items.consStatement text raw line items).nodes = items.nodes := by
  unfold Items.consStatement
  cases h : Node.ofStatement text raw line with
  | none => exact .inr fun items => rfl
  | some n =>
    unfold Node.ofStatement at h
    split at h
    · rename_i rest htext
      obtain rfl := Option.some.inj h
      have hcalled : (Node.atRule ⟨(splitAtPrelude rest).1, (splitAtPrelude rest).2, [], line, raw⟩
          []).IsCalled text := ⟨rest, htext⟩
      exact .inl ⟨_, rfl, rfl, hcalled, fun items => rfl⟩
    · exact absurd h (by simp)

theorem IsStatement.semicolon {p : List Token} {s : Token} {n : Node}
    (hstart : StartsStatement p) (hpass : passes [] p = some []) (hs : s.kind = .semicolon)
    (hraw : n.raw = rawText (p ++ [s])) (hcalled : n.IsCalled (trimmedText p))
    (hn : Items.consStatement (trimmedText p) (rawText (p ++ [s])) (lineOf (p ++ [s])) {} =
      Items.consNode n {}) : IsStatement (p ++ [s]) n where
  reads := by
    have hreads := Reads.semicolon hstart hpass hs (@Reads.done false)
    rwa [hn] at hreads
  ends := endsStatement_concat (.inl hs)
  raw_eq := hraw
  called := ⟨p, [s], rfl, hcalled⟩

theorem IsStatement.block {p body : List Token} {brace close : Token} {inner : Items}
    (hstart : StartsStatement p) (hpass : passes [] p = some [])
    (hbrace : brace.kind = .opening .curly) (hbody : Reads false body inner)
    (hclose : close.kind = .closing .curly) :
    IsStatement (p ++ brace :: (body ++ [close])) (.ofBlock (trimmedText p) inner
      (rawText (p ++ brace :: (body ++ [close]))) (lineOf (p ++ [brace]))) where
  reads := .block hstart hpass hbrace hbody hclose .done
  ends := by
    have hsplit : p ++ brace :: (body ++ [close]) = (p ++ brace :: body) ++ [close] := by simp
    rw [hsplit]
    exact endsStatement_concat (.inr hclose)
  raw_eq := Node.raw_ofBlock _ _ _ _
  called := ⟨p, _, rfl, Node.isCalled_ofBlock _ _ _ _⟩

theorem IsBlock.isStatement {ts : List Token} {n : Node} (h : IsBlock ts n) : IsStatement ts n := by
  obtain ⟨hstart, hpass, hbrace, hbody, hclose⟩ := h
  exact .block hstart hpass hbrace hbody hclose

theorem IsLastStatement.cutBlock {p body : List Token} {brace : Token} {inner : Items}
    (hstart : StartsStatement p) (hpass : passes [] p = some [])
    (hbrace : brace.kind = .opening .curly) (hbody : Reads true body inner) :
    IsLastStatement true (p ++ brace :: body) (.ofBlock (trimmedText p) inner
      (rawText (p ++ brace :: body)) (lineOf (p ++ [brace]))) where
  reads := .cutBlock hstart hpass hbrace hbody
  raw_eq := Node.raw_ofBlock _ _ _ _
  called := ⟨p, _, rfl, Node.isCalled_ofBlock _ _ _ _⟩

/-- **Every node is read from one statement.** It is closed, unless it is the last one. -/
theorem Reads.exists_statement {cut : Bool} {ts : List Token} {items : Items}
    (h : Reads cut ts items) {n : Node} {ns ms : List Node} (hn : items.nodes = ns ++ n :: ms) :
    (∃ us, us <:+: ts ∧ IsStatement us n) ∨
      ms = [] ∧ ∃ us, us <:+ ts ∧ IsLastStatement cut us n := by
  -- what is found in later statements is found in all of them
  have hmono {cut : Bool} {ts ts' : List Token} (hts : ts <:+ ts')
      (h : (∃ us, us <:+: ts ∧ IsStatement us n) ∨
        ms = [] ∧ ∃ us, us <:+ ts ∧ IsLastStatement cut us n) :
      (∃ us, us <:+: ts' ∧ IsStatement us n) ∨
        ms = [] ∧ ∃ us, us <:+ ts' ∧ IsLastStatement cut us n := by
    rcases h with ⟨us, hus, hstatement⟩ | ⟨hnil, us, hus, hlast⟩
    · exact .inl ⟨us, hus.trans hts.isInfix, hstatement⟩
    · exact .inr ⟨hnil, us, hus.trans hts, hlast⟩
  induction h generalizing ns with
  | done => exact absurd hn (by simp)
  | trivia ht h ih => exact hmono (List.suffix_cons _ _) (ih hn)
  | @last cut p o hne hstart hpass ho =>
    rcases Items.consStatement_cases (trimmedText p) (rawText p) (lineOf p) with
      ⟨m, hraw, -, hcalled, hm⟩ | hnone
    · have hreads := Reads.last hne hstart hpass ho
      rw [hm] at hn hreads
      obtain ⟨rfl, rfl, rfl⟩ : ns = [] ∧ n = m ∧ ms = [] := by
        simpa [Items.consNode, List.singleton_eq_append_iff] using hn
      exact .inr ⟨rfl, p, List.suffix_rfl, hreads, hraw, p, [], by simp, hcalled⟩
    · rw [hnone] at hn
      exact absurd hn (by simp)
  | @semicolon cut p ts s items hstart hpass hs h ih =>
    have hts : ts <:+ p ++ s :: ts := ⟨p ++ [s], by simp⟩
    rcases Items.consStatement_cases (trimmedText p) (rawText (p ++ [s])) (lineOf (p ++ [s])) with
      ⟨m, hraw, -, hcalled, hm⟩ | hnone
    · rw [hm, Items.consNode] at hn
      rcases List.cons_eq_append_iff.1 hn with ⟨rfl, hms⟩ | ⟨ns, rfl, hns⟩
      · obtain ⟨rfl, rfl⟩ := List.cons.inj hms
        exact .inl ⟨_, (infix_semicolon p ts s).1, .semicolon hstart hpass hs hraw hcalled (hm _)⟩
      · exact hmono hts (ih hns)
    · rw [hnone] at hn
      exact hmono hts (ih hn)
  | @block cut p body ts brace close inner items hstart hpass hbrace hbody hclose h ihbody ih =>
    have hts : ts <:+ p ++ brace :: (body ++ close :: ts) :=
      ⟨p ++ brace :: (body ++ [close]), by simp⟩
    rcases List.cons_eq_append_iff.1 hn with ⟨rfl, hms⟩ | ⟨ns, rfl, hns⟩
    · obtain ⟨rfl, rfl⟩ := List.cons.inj hms
      exact .inl ⟨_, (infix_block p body ts brace close).1,
        .block hstart hpass hbrace hbody hclose⟩
    · exact hmono hts (ih hns)
  | @cutBlock p body brace inner hstart hpass hbrace hbody ih =>
    obtain ⟨rfl, rfl, rfl⟩ : ns = [] ∧ n = Node.ofBlock (trimmedText p) inner
        (rawText (p ++ brace :: body)) (lineOf (p ++ [brace])) ∧ ms = [] := by
      simpa [Items.consNode, List.singleton_eq_append_iff] using hn
    exact .inr ⟨rfl, _, List.suffix_rfl, .cutBlock hstart hpass hbrace hbody⟩

/-- The node is read from one of the statements in the tokens. The statement is closed, or the brace
of the block around it or the end of the tokens ends it. -/
def HasStatement (cut : Bool) (ts : List Token) (n : Node) : Prop :=
  (∃ us, us <:+: ts ∧ IsStatement us n) ∨
    (∃ us close, us ++ [close] <:+: ts ∧ close.kind = .closing .curly ∧
      IsLastStatement false us n) ∨
    ∃ us, us <:+ ts ∧ IsLastStatement cut us n

theorem HasStatement.mono {cut : Bool} {ts ts' : List Token} {n : Node}
    (h : HasStatement cut ts n) (hts : ts <:+ ts') : HasStatement cut ts' n := by
  rcases h with ⟨us, hus, h⟩ | ⟨us, close, hus, hclose, h⟩ | ⟨us, hus, h⟩
  · exact .inl ⟨us, hus.trans hts.isInfix, h⟩
  · exact .inr (.inl ⟨us, close, hus.trans hts.isInfix, hclose, h⟩)
  · exact .inr (.inr ⟨us, hus.trans hts, h⟩)

/-- What has its statement in the block has it in what stands around the block. -/
theorem HasStatement.of_body {cut : Bool} {body ts : List Token} {close : Token} {n : Node}
    (h : HasStatement false body n) (hbody : body ++ [close] <:+: ts)
    (hclose : close.kind = .closing .curly) : HasStatement cut ts n := by
  rcases h with ⟨us, hus, h⟩ | ⟨us, close', hus, hclose', h⟩ | ⟨us, ⟨a, rfl⟩, h⟩
  · exact .inl ⟨us, (hus.trans (List.prefix_append _ _).isInfix).trans hbody, h⟩
  · exact .inr (.inl ⟨us, close', (hus.trans (List.prefix_append _ _).isInfix).trans hbody, hclose',
      h⟩)
  · have hlast : us ++ [close] <:+ a ++ us ++ [close] := ⟨a, by simp⟩
    exact .inr (.inl ⟨us, close, hlast.isInfix.trans hbody, hclose, h⟩)

/-- **Every node at any depth is read from one statement.** -/
theorem Reads.hasStatement {cut : Bool} {ts : List Token} {items : Items}
    (h : Reads cut ts items) {n : Node} (hn : n ∈ Node.withinAll items.nodes) :
    HasStatement cut ts n := by
  induction h with
  | done => exact absurd hn (by simp [Node.withinAll])
  | trivia ht h ih => exact (ih hn).mono (List.suffix_cons _ _)
  | @last cut p o hne hstart hpass ho =>
    rcases Items.consStatement_cases (trimmedText p) (rawText p) (lineOf p) with
      ⟨m, hraw, hwithin, hcalled, hm⟩ | hnone
    · have hreads := Reads.last hne hstart hpass ho
      rw [hm] at hn hreads
      obtain rfl : n = m := by simpa [Items.consNode, Node.withinAll, hwithin] using hn
      exact .inr (.inr ⟨p, List.suffix_rfl, hreads, hraw, p, [], by simp, hcalled⟩)
    · rw [hnone] at hn
      exact absurd hn (by simp [Node.withinAll])
  | @semicolon cut p ts s items hstart hpass hs h ih =>
    have hts : ts <:+ p ++ s :: ts := ⟨p ++ [s], by simp⟩
    rcases Items.consStatement_cases (trimmedText p) (rawText (p ++ [s])) (lineOf (p ++ [s])) with
      ⟨m, hraw, hwithin, hcalled, hm⟩ | hnone
    · rw [hm, Items.consNode, Node.withinAll, hwithin, List.singleton_append, List.mem_cons] at hn
      rcases hn with rfl | hn
      · exact .inl ⟨_, (infix_semicolon p ts s).1, .semicolon hstart hpass hs hraw hcalled (hm _)⟩
      · exact (ih hn).mono hts
    · rw [hnone] at hn
      exact (ih hn).mono hts
  | @block cut p body ts brace close inner items hstart hpass hbrace hbody hclose h ihbody ih =>
    have hblock := (infix_block p body ts brace close).1
    have hts : ts <:+ p ++ brace :: (body ++ close :: ts) :=
      ⟨p ++ brace :: (body ++ [close]), by simp⟩
    have hin : body ++ [close] <:+: p ++ brace :: (body ++ close :: ts) :=
      ⟨p ++ [brace], ts, by simp⟩
    rw [Items.consNode, Node.withinAll, List.mem_append] at hn
    rcases hn with hn | hn
    · rcases Node.within_ofBlock hn with rfl | hn
      · exact .inl ⟨_, hblock, .block hstart hpass hbrace hbody hclose⟩
      · exact (ihbody hn).of_body hin hclose
    · exact (ih hn).mono hts
  | @cutBlock p body brace inner hstart hpass hbrace hbody ih =>
    have hin : body <:+ p ++ brace :: body := ⟨p ++ [brace], by simp⟩
    rw [Items.consNode, Node.withinAll, Node.withinAll, List.append_nil] at hn
    rcases Node.within_ofBlock hn with rfl | hn
    · exact .inr (.inr ⟨_, List.suffix_rfl, .cutBlock hstart hpass hbrace hbody⟩)
    · exact (ih hn).mono hin

end GlyphTrim.Css
