import GlyphTrim.Proofs.Css.Midst
import GlyphTrim.Proofs.Glyph.Content
import GlyphTrim.Proofs.Glyph.Selectors

/-!
# Comments in a stylesheet

A stylesheet with a comment between two of its tokens is a stylesheet, and the index stays the same
unless it reads the comment (`indexed_insert_comment`). Selectors and declarations are kept as they
are written, so the index reads a comment in two places (`readsComment`): in a declaration that gives
an escape as the content of a rule for glyphs, and in the selectors of a rule with such a
declaration. There it loses the glyph (`not_forall_indexed_insert_comment`).

The proof goes over the statements of the stylesheet (`exists_reads_insert`). What the index takes
from a block depends on the blocks around it, so `SameGlyphs` is about items in given blocks.
-/

namespace GlyphTrim.Glyph

open Css Text

/-! ## Comments that the index reads -/

/-- Whether a prelude is that of an at-rule. -/
def isAtPrelude (p : List Token) : Bool := (trimmedText p).toList.head? == some '@'

/-- Whether a prelude lists a selector of a glyph. -/
def listsGlyph (p : List Token) : Bool :=
  !isAtPrelude p && !(classesOfList (sourceText p)).isEmpty

/-- Whether the rules in blocks with the preludes `outer` are rules of the stylesheet. -/
def holdsRules (outer : List (List Token)) : Bool := outer.all isAtPrelude

/-- Whether the declarations in blocks with the preludes `outer` are those of a rule for glyphs. -/
def holdsDeclarations : List (List Token) → Bool
  | [] => false
  | p :: outer => listsGlyph p && holdsRules outer

/-- Whether a comment counts between the tokens `front` and `back` of the prelude of a block: it
stands in front of the at sign of an at-rule, or in the selectors of a rule that gives an escape. -/
def readsInPrelude (front back : List Token) (inner : Items) (body : List Char) : Bool :=
  if isAtPrelude (front ++ back) then trimmedText front == ""
  else
    inner.declarations.any (fun d => (contentEscape d).isSome) &&
      listCounts (sourceText front) (sourceText back) body

/-- Whether the index reads a comment at a place in front of the tokens `us`: in a declaration of
a rule for glyphs that gives an escape as the content, or in the prelude of a rule with such a
declaration. -/
def readsComment (m : Midst) (us : List Token) (body : List Char) : Bool :=
  if m.front.isEmpty then false
  else
    match takePrelude true m.open_ none us with
    | .error _ => false
    | .ok (back, rest) =>
      let declares := holdsDeclarations m.outer &&
        (glyphOfText (trimmedText (m.front ++ back))).isSome
      match rest with
      | [] => declares
      | t :: rest =>
        if t.kind = .opening .curly then
          match parseItems true (rest.length + 1) rest with
          | .error _ => false
          | .ok (inner, _) => holdsRules m.outer && readsInPrelude m.front back inner body
        else declares

variable {outer : List (List Token)} {ts us p : List Token} {o o' : List Bracket}
  {body : List Char}

theorem readsComment_of_declaration {rest : List Token} (hts : ts ≠ [])
    (hpass : passes o p = some o')
    (hrest : rest = [] ∨
      o' = [] ∧ ∃ t ts', rest = t :: ts' ∧ t.Stops true ∧ t.kind ≠ .opening .curly) :
    readsComment ⟨outer, ts, o⟩ (p ++ rest) body =
      (holdsDeclarations outer && (glyphOfText (trimmedText (ts ++ p))).isSome) := by
  have hempty : ts.isEmpty = false := by simpa using hts
  have htake : takePrelude true o none (p ++ rest) = .ok (p, rest) := by
    refine takePrelude_append hpass (hrest.imp_right ?_)
    rintro ⟨ho, t, ts', heq, hstop, -⟩
    exact ⟨ho, t, ts', heq, hstop⟩
  simp only [readsComment, hempty, htake, Bool.false_eq_true, if_false]
  rcases hrest with rfl | ⟨-, t, ts', rfl, -, hkind⟩
  · rfl
  · simp only [if_neg hkind]

theorem readsComment_of_block {brace : Token} {block rest : List Token} {inner : Items}
    (hts : ts ≠ []) (hpass : passes o p = some []) (hbrace : brace.kind = .opening .curly)
    (hblock : parseItems true (block.length + 1) block = .ok (inner, rest)) :
    readsComment ⟨outer, ts, o⟩ (p ++ brace :: block) body =
      (holdsRules outer && readsInPrelude ts p inner body) := by
  have hempty : ts.isEmpty = false := by simpa using hts
  have htake : takePrelude true o none (p ++ brace :: block) = .ok (p, brace :: block) :=
    takePrelude_append hpass (.inr ⟨rfl, brace, block, rfl, .inr (.inl hbrace)⟩)
  simp only [readsComment, hempty, htake, hbrace, hblock, Bool.false_eq_true, if_false, if_true]

/-! ## What the index takes from a block -/

/-- Items in blocks with the preludes `outer` from which the index takes the same. -/
structure SameGlyphs (outer : List (List Token)) (a b : Items) : Prop where
  rules : holdsRules outer = true → glyphsOf a.nodes = glyphsOf b.nodes
  declarations : holdsDeclarations outer = true →
    escapesOf a.declarations = escapesOf b.declarations

theorem SameGlyphs.refl (a : Items) : SameGlyphs outer a a := ⟨fun _ => rfl, fun _ => rfl⟩

section

variable {a b : Items} (h : SameGlyphs outer a b)

include h

theorem SameGlyphs.consStatement (text raw raw' : String) (line line' : Nat) :
    SameGlyphs outer (Items.consStatement text raw line a)
      (Items.consStatement text raw' line' b) where
  rules hrules := by
    rw [glyphsOf_consStatement, glyphsOf_consStatement, h.rules hrules]
  declarations hdeclarations :=
    escapesOf_consStatement_congr (h.declarations hdeclarations) _ _ _ _ _

/-- Statements without a block that give no escape. -/
theorem SameGlyphs.consStatement_of_none {text text' : String}
    (htext : holdsDeclarations outer = true → glyphOfText text = none ∧ glyphOfText text' = none)
    (raw raw' : String) (line line' : Nat) :
    SameGlyphs outer (Items.consStatement text raw line a)
      (Items.consStatement text' raw' line' b) where
  rules hrules := by
    rw [glyphsOf_consStatement, glyphsOf_consStatement, h.rules hrules]
  declarations hdeclarations := by
    obtain ⟨hnone, hnone'⟩ := htext hdeclarations
    rw [escapesOf_consStatement hnone, escapesOf_consStatement hnone',
      h.declarations hdeclarations]

theorem SameGlyphs.consNode {n n' : Node}
    (hn : holdsRules outer = true → n.rules.flatMap ruleGlyphs = n'.rules.flatMap ruleGlyphs) :
    SameGlyphs outer (a.consNode n) (b.consNode n') where
  rules hrules := by
    rw [Items.consNode, Items.consNode, glyphsOf_cons, glyphsOf_cons, hn hrules, h.rules hrules]
  declarations := h.declarations

end

theorem classesOfList_sourceText (p : List Token) :
    (selectorList (trimmedText p)).filterMap classOfSelector = classesOfList (sourceText p) :=
  classesOfList_trimChars (sourceText p)

theorem isAtPrelude_iff : isAtPrelude p = true ↔ (trimmedText p).toList.head? = some '@' :=
  beq_iff_eq

/-- What the index takes from a block with a prelude. -/
theorem flatMap_rules_prelude (p : List Token) (inner : Items) (raw : String) (line : Nat) :
    (Node.ofBlock (trimmedText p) inner raw line).rules.flatMap ruleGlyphs =
      if isAtPrelude p = true then glyphsOf inner.nodes
      else givenTo (classesOfList (sourceText p)) (escapesOf inner.declarations).getLast? := by
  rw [flatMap_rules_ofBlock, classesOfList_sourceText]
  by_cases hat : isAtPrelude p = true
  · rw [if_pos hat, if_pos (isAtPrelude_iff.1 hat)]
  · rw [if_neg hat, if_neg (mt isAtPrelude_iff.2 hat)]

/-- Blocks with the same prelude from which the index takes the same. -/
theorem SameGlyphs.flatMap_rules_eq {inner inner' : Items} (h : SameGlyphs (p :: outer) inner inner')
    (raw raw' : String) (line line' : Nat) (houter : holdsRules outer = true) :
    (Node.ofBlock (trimmedText p) inner raw line).rules.flatMap ruleGlyphs =
      (Node.ofBlock (trimmedText p) inner' raw' line').rules.flatMap ruleGlyphs := by
  rw [flatMap_rules_prelude, flatMap_rules_prelude]
  cases hat : isAtPrelude p with
  | true =>
    have hrules : holdsRules (p :: outer) = true := by
      rw [holdsRules, List.all_cons, hat]
      exact houter
    rw [if_pos rfl, if_pos rfl, h.rules hrules]
  | false =>
    rw [if_neg Bool.false_ne_true, if_neg Bool.false_ne_true]
    by_cases hnil : classesOfList (sourceText p) = []
    · rw [hnil]
      cases (escapesOf inner.declarations).getLast? <;>
        cases (escapesOf inner'.declarations).getLast? <;> rfl
    · have hdeclarations : holdsDeclarations (p :: outer) = true := by
        simp [holdsDeclarations, listsGlyph, hat, hnil, houter]
      rw [h.declarations hdeclarations]

/-! ## Comments in a statement -/

variable {c : Token} (hc : c.text = commentText body)

include hc

theorem sourceText_insert :
    sourceText (ts ++ c :: us) = sourceText ts ++ (commentText body ++ sourceText us) := by
  rw [sourceText_append, sourceText_cons, hc]

/-- With a comment in it, a text gives no escape if it gave none. -/
theorem glyphOfText_insert (h : glyphOfText (trimmedText (ts ++ us)) = none) :
    glyphOfText (trimmedText (ts ++ c :: us)) = none := by
  rw [← Option.not_isSome_iff_eq_none] at h ⊢
  rw [trimmedText, isSome_glyphOfText_iff] at h ⊢
  rw [sourceText_insert hc]
  rw [sourceText_append] at h
  exact fun hgives => h (GivesContent.of_slash hgives _)

/-- A comment comes first only behind white space. -/
theorem isAtPrelude_insert :
    isAtPrelude (ts ++ c :: us) = (isAtPrelude (ts ++ us) && trimmedText ts != "") := by
  have hslash : (trimmedText (ts ++ c :: us)).toList =
      trimChars (sourceText ts ++ '/' :: ('*' :: (body ++ ['*', '/']) ++ sourceText us)) := by
    rw [trimmedText, sourceText_insert hc, String.toList_ofList]
    rfl
  by_cases hnil : trimChars (sourceText ts) = []
  · have hempty : trimmedText ts = "" := by rw [trimmedText, hnil]
    rw [isAtPrelude, hslash, head?_trimChars_append_cons hnil (by decide), hempty]
    simp
  · have hne : trimmedText ts ≠ "" := by simpa [trimmedText, ← String.toList_inj] using hnil
    have hold : (trimmedText (ts ++ us)).toList.head? = (trimChars (sourceText ts)).head? := by
      rw [trimmedText, sourceText_append, String.toList_ofList, head?_trimChars_append hnil]
    rw [isAtPrelude, hslash, head?_trimChars_append hnil, isAtPrelude, hold]
    simp [hne]

/-- With a comment in its prelude, a block gives the same escape to the same classes. -/
theorem flatMap_rules_insert {inner : Items} (h : readsInPrelude ts us inner body = false)
    (raw raw' : String) (line line' : Nat) :
    (Node.ofBlock (trimmedText (ts ++ us)) inner raw line).rules.flatMap ruleGlyphs =
      (Node.ofBlock (trimmedText (ts ++ c :: us)) inner raw' line').rules.flatMap ruleGlyphs := by
  rw [flatMap_rules_prelude, flatMap_rules_prelude, isAtPrelude_insert hc, sourceText_insert hc,
    sourceText_append]
  rw [readsInPrelude] at h
  cases hat : isAtPrelude (ts ++ us) with
  | true =>
    rw [hat, if_pos rfl, beq_eq_false_iff_ne] at h
    simp [h]
  | false =>
    rw [hat, if_neg Bool.false_ne_true, Bool.and_eq_false_iff] at h
    rw [Bool.false_and, if_neg Bool.false_ne_true, if_neg Bool.false_ne_true]
    rcases h with hnone | hlist
    · have hescapes : escapesOf inner.declarations = [] := by
        rw [escapesOf, List.filterMap_eq_nil_iff]
        simpa using hnone
      rw [hescapes]
      rfl
    · rw [classesOfList_insert hlist]

/-! ## Comments in statements -/

omit hc

section

variable (hkind : c.kind = .comment)

theorem startsStatement_insert (hts : ts ≠ []) (h : StartsStatement (ts ++ us)) :
    StartsStatement (ts ++ c :: us) := by
  obtain ⟨t, ts, rfl⟩ := List.exists_cons_of_ne_nil hts
  exact h

/-- A place in a text with a mark lies in front of the mark or behind it. -/
theorem append_cons_eq_append_cases {a b : List Token} {t : Token} (h : a ++ t :: b = ts ++ us) :
    (∃ q, a = ts ++ q ∧ us = q ++ t :: b) ∨ ∃ q, ts = a ++ t :: q ∧ b = q ++ us := by
  rcases List.append_eq_append_iff.1 h with ⟨q, rfl, hq⟩ | ⟨q, rfl, hq⟩
  · cases q with
    | nil => exact .inl ⟨[], by simp, by simpa using hq.symm⟩
    | cons d q =>
      obtain ⟨rfl, rfl⟩ := List.cons.inj hq
      exact .inr ⟨q, rfl, rfl⟩
  · exact .inl ⟨q, rfl, hq⟩

theorem exists_midstIn (outer : List (List Token)) (hstart : StartsStatement (ts ++ us))
    (hpass : passes [] (ts ++ us) = some o) :
    ∃ o₁, midstIn outer ts = ⟨outer, ts, o₁⟩ ∧ passes o₁ us = some o := by
  obtain ⟨o₁, h₁, h₂⟩ := passes_append_eq_some_iff.1 hpass
  exact ⟨o₁, midstIn_of_passes hstart.of_append h₁, h₂⟩

include hkind in
theorem passes_insert (h : passes o (ts ++ us) = some o') :
    passes o (ts ++ c :: us) = some o' := by
  have hcomment : ∀ o, passToken c o = some o := fun o => by cases o <;> rw [passToken, hkind]
  obtain ⟨o₁, h₁, h₂⟩ := passes_append_eq_some_iff.1 h
  exact passes_append_eq_some_iff.2
    ⟨o₁, h₁, passes_cons_eq_some_iff.2 ⟨o₁, hcomment o₁, h₂⟩⟩

end

include hc

/-- Statements without a block that differ in a comment. -/
theorem sameGlyphs_consStatement_insert {rest : List Token} {a : Items} (hts : ts ≠ [])
    (hstart : StartsStatement (ts ++ us)) (hpass : passes [] (ts ++ us) = some o)
    (hrest : rest = [] ∨
      o = [] ∧ ∃ t ts', rest = t :: ts' ∧ t.Stops true ∧ t.kind ≠ .opening .curly)
    (hread : readsComment (midstIn outer ts) (us ++ rest) body = false) (raw raw' : String)
    (line line' : Nat) :
    SameGlyphs outer (Items.consStatement (trimmedText (ts ++ us)) raw line a)
      (Items.consStatement (trimmedText (ts ++ c :: us)) raw' line' a) := by
  obtain ⟨o₁, hmidst, hus⟩ := exists_midstIn outer hstart hpass
  rw [hmidst, readsComment_of_declaration hts hus hrest] at hread
  refine (SameGlyphs.refl a).consStatement_of_none (fun hdeclarations => ?_) _ _ _ _
  have hnone : glyphOfText (trimmedText (ts ++ us)) = none := by
    rw [hdeclarations, Bool.true_and, Option.isSome_eq_false_iff, Option.isNone_iff_eq_none] at hread
    exact hread
  exact ⟨hnone, glyphOfText_insert hc hnone⟩

/-- Blocks whose preludes differ in a comment. -/
theorem sameGlyphs_consNode_insert {brace : Token} {block rest : List Token} {inner a : Items}
    (hts : ts ≠ []) (hstart : StartsStatement (ts ++ us)) (hpass : passes [] (ts ++ us) = some [])
    (hbrace : brace.kind = .opening .curly)
    (hblock : parseItems true (block.length + 1) block = .ok (inner, rest))
    (hread : readsComment (midstIn outer ts) (us ++ brace :: block) body = false)
    (raw raw' : String) (line line' : Nat) :
    SameGlyphs outer (a.consNode (.ofBlock (trimmedText (ts ++ us)) inner raw line))
      (a.consNode (.ofBlock (trimmedText (ts ++ c :: us)) inner raw' line')) := by
  obtain ⟨o₁, hmidst, hus⟩ := exists_midstIn outer hstart hpass
  rw [hmidst, readsComment_of_block hts hus hbrace hblock] at hread
  refine (SameGlyphs.refl a).consNode fun hrules => ?_
  rw [hrules, Bool.true_and] at hread
  exact flatMap_rules_insert hc hread _ _ _ _

/-- **A comment in statements** leaves statements, and the index takes the same from them if it does
not read the comment. -/
theorem exists_reads_insert (hkind : c.kind = .comment) (outer : List (List Token)) {cut : Bool}
    {w z : List Token} {items : Items}
    (h : Reads cut w items) (hw : w = ts ++ us) (hz : EndsItems true cut z) :
    ∃ items', Reads cut (ts ++ c :: us) items' ∧
      (readsComment (midstIn outer ts) (us ++ z) body = false → SameGlyphs outer items items') := by
  have htrivia : c.isTrivia = true := by simp [Token.isTrivia, hkind]
  induction h generalizing outer ts us z with
  | done =>
    obtain ⟨rfl, rfl⟩ := List.append_eq_nil_iff.1 hw.symm
    exact ⟨{}, .trivia htrivia .done, fun _ => .refl _⟩
  | @trivia cut t w items ht h ih =>
    cases ts with
    | nil =>
      rw [List.nil_append] at hw
      exact ⟨items, .trivia htrivia (hw ▸ .trivia ht h), fun _ => .refl _⟩
    | cons t' ts =>
      rw [List.cons_append] at hw
      obtain ⟨rfl, rfl⟩ := List.cons.inj hw
      obtain ⟨items', hreads, hsame⟩ := ih outer rfl hz
      rw [midstIn_cons_trivia ht]
      exact ⟨items', .trivia ht hreads, hsame⟩
  | @last cut p o hne hstart hpass ho =>
    subst hw
    by_cases hts : ts = []
    · subst hts
      exact ⟨_, .trivia htrivia (.last hne hstart hpass ho), fun _ => .refl _⟩
    have hend : z = [] ∨ o = [] ∧ ∃ t z', z = t :: z' ∧ t.Stops true ∧ t.kind ≠ .opening .curly := by
      cases cut with
      | true => exact .inl hz
      | false =>
        obtain ⟨-, t, z', rfl, ht⟩ := hz
        exact .inr ⟨ho.resolve_right (by simp), t, z', rfl, .inr (.inr ⟨rfl, ht⟩), by simp [ht]⟩
    exact ⟨_, .last (by simp) (startsStatement_insert hts hstart) (passes_insert hkind hpass) ho,
      fun hread => sameGlyphs_consStatement_insert hc hts hstart hpass hend hread _ _ _ _⟩
  | @semicolon cut p w s items hstart hpass hs h ih =>
    rcases append_cons_eq_append_cases hw with ⟨q, rfl, rfl⟩ | ⟨q, rfl, rfl⟩
    · by_cases hts : ts = []
      · subst hts
        exact ⟨_, .trivia htrivia (.semicolon hstart hpass hs h), fun _ => .refl _⟩
      have hreads := Reads.semicolon (startsStatement_insert (c := c) hts hstart)
        (passes_insert hkind hpass) hs h
      rw [List.append_assoc, List.cons_append] at hreads
      rw [List.append_assoc, List.cons_append]
      refine ⟨_, hreads, fun hread => ?_⟩
      exact sameGlyphs_consStatement_insert hc hts hstart hpass
        (.inr ⟨rfl, s, w ++ z, rfl, .inl hs, by simp [hs]⟩) hread _ _ _ _
    · obtain ⟨items', hreads, hsame⟩ := ih outer rfl hz
      rw [midstIn_append_semicolon hstart hpass hs, List.append_assoc, List.cons_append]
      exact ⟨_, .semicolon hstart hpass hs hreads, fun hread => (hsame hread).consStatement _ _ _ _ _⟩
  | @block cut p block w brace close inner items hstart hpass hbrace hblock hclose h ihblock ih =>
    rcases append_cons_eq_append_cases hw with ⟨q, rfl, rfl⟩ | ⟨q, rfl, hbehind⟩
    · by_cases hts : ts = []
      · subst hts
        exact ⟨_, .trivia htrivia (.block hstart hpass hbrace hblock hclose h), fun _ => .refl _⟩
      have hend : EndsItems true false (close :: (w ++ z)) := ⟨rfl, close, w ++ z, rfl, hclose⟩
      have hparse := hblock.parseItems_eq hend (Nat.lt_succ_self _)
      have hreads := Reads.block (startsStatement_insert (c := c) hts hstart)
        (passes_insert hkind hpass) hbrace hblock hclose h
      rw [List.append_assoc, List.cons_append] at hreads
      rw [List.append_assoc, List.cons_append, List.append_assoc, List.cons_append]
      refine ⟨_, hreads, fun hread => ?_⟩
      exact sameGlyphs_consNode_insert hc hts hstart hpass hbrace hparse hread _ _ _ _
    · rw [midstIn_append_brace hstart hpass hbrace]
      rcases append_cons_eq_append_cases hbehind with ⟨r, rfl, rfl⟩ | ⟨r, rfl, rfl⟩
      · obtain ⟨inner', hinner, hsame⟩ :=
          ihblock (p :: outer) rfl ⟨rfl, close, w ++ z, rfl, hclose⟩
        have hreads := Reads.block hstart hpass hbrace hinner hclose h
        rw [List.append_assoc, List.cons_append] at hreads ⊢
        rw [List.append_assoc, List.cons_append]
        refine ⟨_, hreads, fun hread => (SameGlyphs.refl items).consNode fun hrules => ?_⟩
        exact (hsame hread).flatMap_rules_eq _ _ _ _ hrules
      · obtain ⟨items', hrest, hsame⟩ := ih outer rfl hz
        rw [hblock.midstIn_append_close hclose, List.tail_cons, List.append_assoc, List.cons_append,
          List.append_assoc, List.cons_append]
        exact ⟨_, .block hstart hpass hbrace hblock hclose hrest,
          fun hread => (hsame hread).consNode fun _ => rfl⟩
  | @cutBlock p block brace inner hstart hpass hbrace hblock ih =>
    obtain rfl : z = [] := hz
    rcases append_cons_eq_append_cases hw with ⟨q, rfl, rfl⟩ | ⟨q, rfl, rfl⟩
    · by_cases hts : ts = []
      · subst hts
        exact ⟨_, .trivia htrivia (.cutBlock hstart hpass hbrace hblock), fun _ => .refl _⟩
      have hend : EndsItems true true [] := rfl
      have hparse := hblock.parseItems_eq hend (Nat.lt_succ_self _)
      have hreads := Reads.cutBlock (startsStatement_insert (c := c) hts hstart)
        (passes_insert hkind hpass) hbrace hblock
      rw [List.append_assoc, List.cons_append] at hreads
      rw [List.append_assoc, List.cons_append]
      refine ⟨_, hreads, fun hread => ?_⟩
      exact sameGlyphs_consNode_insert hc hts hstart hpass hbrace hparse hread _ _ _ _
    · obtain ⟨inner', hinner, hsame⟩ := ih (p :: outer) rfl rfl
      rw [midstIn_append_brace hstart hpass hbrace, List.append_assoc, List.cons_append]
      refine ⟨_, .cutBlock hstart hpass hbrace hinner,
        fun hread => (SameGlyphs.refl {}).consNode fun hrules => ?_⟩
      exact (hsame hread).flatMap_rules_eq _ _ _ _ hrules

omit hc

/-! ## Comments in a stylesheet -/

/-- **A comment between two tokens** of a stylesheet leaves a stylesheet, and the index stays the
same for all classes in use if it does not read the comment. -/
theorem indexed_insert_comment {css css' : String} {sheet : Sheet}
    (hparse : Sheet.parse css = .ok sheet) (htokens : tokens (dropMark css.toList) = ts ++ us)
    (hus : us ≠ []) (hparted : Parted ts us) (hbody : ¬['*', '/'] <:+: body)
    (hcss' : dropMark css'.toList = sourceText ts ++ (commentText body ++ sourceText us)) :
    ∃ sheet', Sheet.parse css' = .ok sheet' ∧
      (readsComment (midst ts) us body = false →
        ∀ used c, indexed sheet' used c = indexed sheet used c) := by
  obtain ⟨items, hreads, hnodes⟩ := parse_eq_ok_iff.1 hparse
  obtain ⟨c, us', htokens', hkind, htext, hsame⟩ :=
    exists_tokensFrom_insert hus hparted htokens hbody
  obtain ⟨items', hreads', hglyphs⟩ :=
    exists_reads_insert (z := []) htext hkind [] hreads htokens rfl
  have hplaces : Same (fun _ => 0) (fun _ => 0) (ts ++ c :: us) (ts ++ c :: us') :=
    Same.append rfl (same_cons_iff.2 ⟨rfl, hsame⟩)
  obtain ⟨items'', hreads'', hlines⟩ := hreads'.exists_of_same hplaces
  refine ⟨⟨items''.nodes⟩, parse_eq_ok_iff.2 ⟨items'', ?_, rfl⟩, fun hread used c => ?_⟩
  · rw [hcss', tokens, htokens']
    exact hreads''
  · rw [List.append_nil] at hglyphs
    have hsheet : glyphsOf sheet.nodes = glyphsOf items''.nodes := by
      have hmap := congrArg (glyphsOf ·.nodes) hlines
      simp only [Items.mapLines, glyphsOf_mapLinesAll] at hmap
      rw [hnodes, (hglyphs hread).rules rfl, hmap]
    rw [indexed_eq, indexed_eq, Sheet.rules, Sheet.rules, lastGlyph_eq, lastGlyph_eq, hsheet]

/-! ## A selector list with a comment -/

/-- A stylesheet with two selectors for one escape. -/
def sharedCss : String := ".b, .icon-a:before \x7b content: \"\\e600\"; \x7d"

/-- The tokens of the stylesheet. -/
def sharedTokens : List Token := tokens (dropMark sharedCss.toList)

/-- The stylesheet with a comment behind its first `n` tokens. -/
def commentedCss (n : Nat) : String :=
  String.ofList (sourceText (sharedTokens.take n) ++
    (commentText [' ', 'x', ' '] ++ sourceText (sharedTokens.drop n)))

example : commentedCss 8 = ".b, .icon-a:before/* x */ \x7b content: \"\\e600\"; \x7d" := by
  decide +kernel

/-- The escape that a stylesheet gives to a class. -/
def escapeIn (css : String) (c : String) : Option (Option String) :=
  (Sheet.parse css).toOption.map fun sheet => indexed sheet (NameSet.ofList [c]) c

theorem exists_of_escapeIn {css c : String} {e : Option String} (h : escapeIn css c = some e) :
    ∃ sheet, Sheet.parse css = .ok sheet ∧ indexed sheet (NameSet.ofList [c]) c = e := by
  unfold escapeIn at h
  cases hparse : Sheet.parse css with
  | error e => simp [hparse, Except.toOption] at h
  | ok sheet =>
    rw [hparse] at h
    exact ⟨sheet, rfl, Option.some.inj h⟩

theorem escapeIn_sharedCss : escapeIn sharedCss "icon-a" = some (some "\\e600") := by
  decide +kernel

/-- A comment behind the selector of another class leaves the glyph. -/
theorem indexed_insert_comment_commentedCss :
    ∃ sheet sheet', Sheet.parse sharedCss = .ok sheet ∧
      Sheet.parse (commentedCss 2) = .ok sheet' ∧
      indexed sheet (NameSet.ofList ["icon-a"]) "icon-a" = some "\\e600" ∧
      ∀ used c, indexed sheet' used c = indexed sheet used c := by
  obtain ⟨sheet, hparse, hescape⟩ := exists_of_escapeIn escapeIn_sharedCss
  have hbody : ¬['*', '/'] <:+: [' ', 'x', ' '] := by decide
  have hcss' : dropMark (commentedCss 2).toList = sourceText (sharedTokens.take 2) ++
      (commentText [' ', 'x', ' '] ++ sourceText (sharedTokens.drop 2)) := by
    decide +kernel
  have hread : readsComment (midst (sharedTokens.take 2)) (sharedTokens.drop 2) [' ', 'x', ' '] =
      false := by
    decide +kernel
  obtain ⟨sheet', hparse', hsame⟩ := indexed_insert_comment hparse
    (List.take_append_drop 2 sharedTokens).symm (by decide +kernel) (by decide +kernel) hbody hcss'
  exact ⟨sheet, sheet', hparse, hparse', hescape, hsame hread⟩

/-- **Not every comment between two tokens leaves the glyph**: one behind the selector of the glyph
is read as a part of the selector. -/
theorem not_forall_indexed_insert_comment :
    ¬∀ (css css' : String) (sheet : Sheet) (ts us : List Token) (body : List Char),
      Sheet.parse css = .ok sheet → tokens (dropMark css.toList) = ts ++ us → ts ≠ [] → us ≠ [] →
        Parted ts us → ¬['*', '/'] <:+: body →
          dropMark css'.toList = sourceText ts ++ (commentText body ++ sourceText us) →
            ∃ sheet', Sheet.parse css' = .ok sheet' ∧
              ∀ used c, indexed sheet' used c = indexed sheet used c := by
  intro h
  have hescape' : escapeIn (commentedCss 8) "icon-a" = some none := by decide +kernel
  obtain ⟨sheet, hparse, hescape⟩ := exists_of_escapeIn escapeIn_sharedCss
  obtain ⟨lost, hlost, hnone⟩ := exists_of_escapeIn hescape'
  obtain ⟨sheet', hparse', hsame⟩ := h sharedCss (commentedCss 8) sheet (sharedTokens.take 8)
    (sharedTokens.drop 8) [' ', 'x', ' '] hparse (List.take_append_drop 8 sharedTokens).symm
    (by decide +kernel) (by decide +kernel) (by decide +kernel) (by decide) (by decide +kernel)
  obtain rfl : lost = sheet' := Except.ok.inj (hlost.symm.trans hparse')
  have hkept := hsame (NameSet.ofList ["icon-a"]) "icon-a"
  rw [hnone, hescape] at hkept
  exact absurd hkept (by decide)

end GlyphTrim.Glyph
