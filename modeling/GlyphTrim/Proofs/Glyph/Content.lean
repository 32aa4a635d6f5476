import GlyphTrim.Proofs.Css.Places
import GlyphTrim.Proofs.Css.Source
import GlyphTrim.Proofs.Glyph.Index
import GlyphTrim.Proofs.Text.Trim

/-!
# Escapes that are given as the content

What the index takes from a stylesheet are the rules that give an escape as their content, each with
its selectors (`Rule.glyph?`, `lastGlyph_eq_of_glyphs_eq`). Whether a text gives one shows at its
start: the property, a colon, white space, a quote and a backslash (`isSome_glyphOfText_iff`). So
it can be told from the text in front of any slash (`GivesContent.of_slash`).
-/

namespace GlyphTrim.Glyph

open Css Text

/-! ## Values -/

/-- A text that begins with a quote and a backslash. -/
def StartsEscape (cs : List Char) : Prop :=
  ∃ q rest, cs = q :: '\\' :: rest ∧ (q = '"' ∨ q = '\'')

theorem StartsEscape.append {a : List Char} (h : StartsEscape a) (b : List Char) :
    StartsEscape (a ++ b) := by
  obtain ⟨q, rest, rfl, hq⟩ := h
  exact ⟨q, rest ++ b, rfl, hq⟩

theorem StartsEscape.rdropWhile {cs : List Char} (h : StartsEscape cs) :
    StartsEscape (cs.rdropWhile isBlank) := by
  obtain ⟨q, rest, rfl, hq⟩ := h
  have hdrop := rdropWhile_append_cons (c := '\\') (by decide) [q] rest
  rw [List.singleton_append] at hdrop
  exact ⟨q, _, hdrop, hq⟩

theorem StartsEscape.of_prefix {a cs : List Char} (h : StartsEscape a) (ha : a <+: cs) :
    StartsEscape cs := by
  obtain ⟨b, rfl⟩ := ha
  exact h.append b

theorem isSome_quotedEscape_iff {value : String} :
    (quotedEscape value).isSome = true ↔ StartsEscape value.toList := by
  unfold quotedEscape
  cases value.toList with
  | nil => simp [StartsEscape]
  | cons q inner =>
    by_cases hq : q = '"' ∨ q = '\''
    · have hslash : q ≠ '\\' := by rintro rfl; simp at hq
      -- the closing quote is not the backslash, also if nothing else follows
      have hhead : (if inner.getLast? == some q then inner.dropLast else inner).head? = some '\\' ↔
          inner.head? = some '\\' := by
        split
        · rename_i hlast
          obtain ⟨l, rfl⟩ := List.getLast?_eq_some_iff.1 (eq_of_beq hlast)
          rw [List.dropLast_concat]
          cases l with
          | nil => simp [hslash]
          | cons d l => rfl
        · exact Iff.rfl
      have hstart : StartsEscape (q :: inner) ↔ inner.head? = some '\\' := by
        constructor
        · rintro ⟨q', rest, h, -⟩
          obtain ⟨rfl, rfl⟩ := List.cons.inj h
          rfl
        · intro h
          obtain ⟨rest, rfl⟩ := List.head?_eq_some_iff.1 h
          exact ⟨q, rest, rfl, hq⟩
      have hquote : (q == '"' || q == '\'') = true := by simpa using hq
      rw [hstart, ← hhead]
      simp only [hquote, if_true]
      split <;> simp_all
    · have hquote : (q == '"' || q == '\'') = false := by simpa using hq
      have hstart : ¬StartsEscape (q :: inner) := by
        rintro ⟨q', rest, h, hq'⟩
        obtain ⟨rfl, rfl⟩ := List.cons.inj h
        exact hq hq'
      simp [hquote, hstart]

/-- A value ends at the mark of importance or where it did. -/
theorem splitImportant_cases (value : List Char) :
    (splitImportant value).1 = value ∨
      ∃ before after, value = before ++ '!' :: after ∧
        (splitImportant value).1 = before.rdropWhile isBlank := by
  have hvalue : value.reverse.takeWhile (· != '!') ++ value.reverse.dropWhile (· != '!') =
      value.reverse := List.takeWhile_append_dropWhile
  unfold splitImportant
  simp only
  split
  · rename_i c before hdrop
    split
    · have hc : c = '!' := by
        have h := List.head?_dropWhile_not (· != '!') value.reverse
        rw [hdrop] at h
        simpa using h
      refine .inr ⟨before.reverse, (value.reverse.takeWhile (· != '!')).reverse, ?_, ?_⟩
      · rw [hdrop, hc] at hvalue
        simpa using congrArg List.reverse hvalue.symm
      · rw [List.rdropWhile, List.reverse_reverse]
    · exact .inl rfl
  · exact .inl rfl

theorem startsEscape_splitImportant_iff {value : List Char} :
    StartsEscape (splitImportant value).1 ↔ StartsEscape value := by
  rcases splitImportant_cases value with h | ⟨before, after, rfl, h⟩ <;> rw [h]
  constructor
  · intro h
    exact h.of_prefix ((List.rdropWhile_prefix isBlank before).trans (List.prefix_append before _))
  · rintro ⟨q, rest, hvalue, hq⟩
    refine StartsEscape.rdropWhile ?_
    -- the mark is neither the quote nor the backslash
    match before, hvalue with
    | [], hvalue =>
      obtain ⟨rfl, -⟩ := List.cons.inj hvalue
      simp at hq
    | [d], hvalue => simp at hvalue
    | d :: e :: before, hvalue =>
      simp only [List.cons_append, List.cons.injEq] at hvalue
      exact ⟨d, before, by rw [hvalue.2.1], hvalue.1 ▸ hq⟩

theorem startsEscape_trimChars_iff {value : List Char} :
    StartsEscape (trimChars value) ↔ StartsEscape (value.dropWhile isBlank) :=
  ⟨fun h => h.of_prefix (List.rdropWhile_prefix isBlank (value.dropWhile isBlank)),
    fun h => h.rdropWhile⟩

/-! ## Declarations -/

/-- The escape that a declaration gives as the content. -/
def contentEscape (d : Declaration) : Option String :=
  if sameIgnoringCase d.property "content" then quotedEscape d.value else none

/-- The escape that a statement without a block gives as the content. -/
def glyphOfText (text : String) : Option String := (Declaration.ofText text).bind contentEscape

/-- A text that names the content and begins its value with a quote and a backslash. -/
def GivesContent (cs : List Char) : Prop :=
  ∃ property value, cs = property ++ ':' :: value ∧ ':' ∉ property ∧
    sameIgnoringCase (String.ofList (trimChars property)) "content" = true ∧
    StartsEscape (value.dropWhile isBlank)

theorem ofText_trimChars {property : List Char} (h : ':' ∉ property) (value : List Char) :
    Declaration.ofText (String.ofList (trimChars (property ++ ':' :: value))) =
      if (trimChars property).isEmpty then none
      else some ⟨String.ofList (trimChars property),
        String.ofList (splitImportant (trimChars value)).1,
        (splitImportant (trimChars value)).2⟩ := by
  have hproperty : ∀ c ∈ property.dropWhile isBlank, (c != ':') = true := by
    intro c hc
    have hmem : c ∈ property := (List.dropWhile_sublist isBlank).subset hc
    simpa using fun hcolon : c = ':' => h (hcolon ▸ hmem)
  rw [trimChars_append_cons (by decide)]
  unfold Declaration.ofText
  simp only [String.toList_ofList, List.takeWhile_append_of_pos hproperty,
    List.dropWhile_append_of_pos hproperty]
  simp [trimChars_dropWhile, trimChars_rdropWhile]

/-- A text has one first colon. -/
theorem append_cons_inj {a b x y : List Char} {c : Char} (ha : c ∉ a) (hb : c ∉ b)
    (h : a ++ c :: x = b ++ c :: y) : a = b ∧ x = y := by
  have hfront : ∀ {a x : List Char}, c ∉ a → (a ++ c :: x).takeWhile (· != c) = a := by
    intro a x ha
    have hne : ∀ d ∈ a, (d != c) = true := fun d hd => by
      simpa using fun hdc : d = c => ha (hdc ▸ hd)
    simp [List.takeWhile_append_of_pos hne]
  obtain rfl : a = b := by rw [← hfront (x := x) ha, h, hfront hb]
  exact ⟨rfl, (List.cons.inj (List.append_cancel_left h)).2⟩

theorem givesContent_append_iff {property : List Char} (h : ':' ∉ property) (value : List Char) :
    GivesContent (property ++ ':' :: value) ↔
      sameIgnoringCase (String.ofList (trimChars property)) "content" = true ∧
        StartsEscape (value.dropWhile isBlank) := by
  constructor
  · rintro ⟨property', value', heq, h', hname, hvalue⟩
    obtain ⟨rfl, rfl⟩ := append_cons_inj h h' heq
    exact ⟨hname, hvalue⟩
  · rintro ⟨hname, hvalue⟩
    exact ⟨property, value, rfl, h, hname, hvalue⟩

/-- **Whether a text gives an escape** as the content shows at its start. -/
theorem isSome_glyphOfText_iff {cs : List Char} :
    (glyphOfText (String.ofList (trimChars cs))).isSome = true ↔ GivesContent cs := by
  by_cases hcolon : ':' ∈ cs
  · obtain ⟨property, value, rfl, hproperty⟩ := List.eq_append_cons_of_mem hcolon
    rw [givesContent_append_iff hproperty, ← startsEscape_trimChars_iff,
      ← startsEscape_splitImportant_iff, glyphOfText, ofText_trimChars hproperty]
    cases hempty : (trimChars property).isEmpty with
    | true =>
      have hnil : trimChars property = [] := List.isEmpty_iff.1 hempty
      simp [hnil, sameIgnoringCase]
    | false =>
      simp only [Bool.false_eq_true, if_false, Option.bind_some, contentEscape]
      split
      · rename_i hname
        rw [isSome_quotedEscape_iff, String.toList_ofList]
        exact ⟨fun h => ⟨hname, h⟩, fun h => h.2⟩
      · rename_i hname
        simp [hname]
  · have hnone : ¬GivesContent cs := by
      rintro ⟨property, value, rfl, -⟩
      exact hcolon (by simp)
    have hdrop : (trimChars cs).dropWhile (· != ':') = [] := by
      rw [List.dropWhile_eq_nil_iff]
      intro c hc
      have hmem : c ∈ cs := by
        obtain ⟨b, e, hcs, -⟩ := exists_trimChars cs
        rw [hcs]
        simp [hc]
      simpa using fun h : c = ':' => hcolon (h ▸ hmem)
    rw [glyphOfText, Declaration.ofText]
    simp only [String.toList_ofList, hdrop]
    simp [hnone]

theorem not_sameIgnoringCase_content {cs : List Char} (h : '/' ∈ cs) :
    sameIgnoringCase (String.ofList cs) "content" = false := by
  rw [sameIgnoringCase, beq_eq_false_iff_ne]
  intro heq
  have hmem : Char.toLower '/' ∈ "content".toList.map Char.toLower :=
    heq ▸ List.mem_map_of_mem (by simpa using h)
  exact absurd hmem (by decide)

/-- **A slash** belongs neither to the name of the content nor to the start of an escape, so the
escape is given by what stands in front of it. -/
theorem GivesContent.of_slash {u x : List Char} (h : GivesContent (u ++ '/' :: x)) (y : List Char) :
    GivesContent (u ++ y) := by
  obtain ⟨property, value, heq, hcolon, hname, q, rest, hvalue, hq⟩ := h
  rcases List.append_eq_append_iff.1 heq with ⟨a, rfl, ha⟩ | ⟨a, rfl, ha⟩
  · -- the slash would be in the name
    obtain ⟨a, rfl⟩ : ∃ b, a = '/' :: b := by
      cases a with
      | nil => simp at ha
      | cons d a => exact ⟨a, by rw [(List.cons.inj ha).1]⟩
    rw [trimChars_append_cons (by decide), not_sameIgnoringCase_content (by simp)] at hname
    exact absurd hname Bool.false_ne_true
  · obtain ⟨a, rfl⟩ : ∃ b, a = ':' :: b := by
      cases a with
      | nil => simp at ha
      | cons d a => exact ⟨a, by rw [(List.cons.inj ha).1]⟩
    obtain rfl : value = a ++ '/' :: x := (List.cons.inj ha).2
    rw [dropWhile_append_cons (by decide)] at hvalue
    have hstart : StartsEscape (a.dropWhile isBlank) := by
      match a.dropWhile isBlank, hvalue with
      | [], hvalue =>
        obtain ⟨rfl, -⟩ := List.cons.inj hvalue
        simp at hq
      | [d], hvalue => simp at hvalue
      | d :: e :: b, hvalue =>
        simp only [List.cons_append, List.cons.injEq] at hvalue
        exact ⟨d, b, by rw [hvalue.2.1], hvalue.1 ▸ hq⟩
    rw [List.append_assoc, List.cons_append, givesContent_append_iff hcolon]
    refine ⟨hname, ?_⟩
    rw [List.dropWhile_append]
    have hne : (a.dropWhile isBlank).isEmpty = false := by
      obtain ⟨q, rest, heq, -⟩ := hstart
      rw [heq]
      rfl
    rw [hne, if_neg Bool.false_ne_true]
    exact hstart.append y

/-! ## Glyphs of statements -/

/-- The classes, each with the escape that they are given. -/
def givenTo (classes : List String) : Option String → List (String × String)
  | some literal => classes.map (·, literal)
  | none => []

/-- The classes that a rule gives an escape to, each with the escape. -/
def ruleGlyphs (r : Rule) : List (String × String) :=
  givenTo (r.selectors.filterMap classOfSelector) (literalOfRule r)

/-- The classes that statements give an escape to, in order. -/
def glyphsOf (ns : List Node) : List (String × String) := (Node.rulesOfAll ns).flatMap ruleGlyphs

/-- The escapes that declarations give as the content, in order. -/
def escapesOf (ds : List Declaration) : List String := ds.filterMap contentEscape

theorem literalOfRule_eq (r : Rule) : literalOfRule r = (escapesOf r.declarations).getLast? := by
  rw [literalOfRule, Rule.declarationsOf, List.filterMap_filter]
  rfl

theorem getLast?_filterMap_map (c literal : String) (names : List String) :
    ((names.map (·, literal)).filterMap fun g => if g.1 = c then some g.2 else none).getLast? =
      if c ∈ names then some literal else none := by
  induction names using List.reverseRecOn with
  | nil => simp
  | append_singleton names d ih =>
    by_cases hd : d = c
    · simp [hd]
    · simpa [hd, Ne.symm hd] using ih

/-- **The escape of a class** is the last one that it is given. -/
theorem lastGlyph_eq (c : String) (ns : List Node) :
    lastGlyph c (Node.rulesOfAll ns) =
      ((glyphsOf ns).filterMap fun g => if g.1 = c then some g.2 else none).getLast? := by
  have hrule : ∀ r : Rule, glyphOf c r =
      ((ruleGlyphs r).filterMap fun g => if g.1 = c then some g.2 else none).getLast? := by
    intro r
    rw [glyphOf, ruleGlyphs]
    cases literalOfRule r with
    | none => simp [givenTo]
    | some literal => rw [givenTo, getLast?_filterMap_map]
  rw [lastGlyph, glyphsOf, List.filterMap_flatMap, List.getLast?_flatMap, List.getLast?_filterMap,
    funext hrule]

theorem glyphsOf_mapLinesAll (f : Nat → Nat) (ns : List Node) :
    glyphsOf (Node.mapLinesAll f ns) = glyphsOf ns := by
  rw [glyphsOf, Node.rulesOfAll_mapLinesAll, List.flatMap_map]
  rfl

theorem glyphsOf_cons (n : Node) (ns : List Node) :
    glyphsOf (n :: ns) = n.rules.flatMap ruleGlyphs ++ glyphsOf ns := by
  rw [glyphsOf, Node.rulesOfAll, List.flatMap_append, glyphsOf]

/-- A statement without a block is an at-rule without rules, or a declaration. -/
theorem consStatement_eq (text raw : String) (line : Nat) (a : Items) :
    (∃ head, Items.consStatement text raw line a = a.consNode (.atRule head []) ∧
      ∃ rest, text.toList = '@' :: rest) ∨
    Items.consStatement text raw line a = a.consDeclaration (Declaration.ofText text) ∧
      ∀ rest, text.toList ≠ '@' :: rest := by
  unfold Items.consStatement Node.ofStatement
  split
  · rename_i node h
    split at h
    · rename_i rest hrest
      obtain rfl := Option.some.inj h
      exact .inl ⟨_, rfl, rest, hrest⟩
    · exact absurd h (by simp)
  · rename_i h
    split at h
    · exact absurd h (by simp)
    · rename_i hnot
      exact .inr ⟨rfl, hnot⟩

/-- A statement without a block gives no class an escape. -/
theorem glyphsOf_consStatement (text raw : String) (line : Nat) (a : Items) :
    glyphsOf (Items.consStatement text raw line a).nodes = glyphsOf a.nodes := by
  rcases consStatement_eq text raw line a with ⟨head, heq, -⟩ | ⟨heq, -⟩ <;> rw [heq]
  · exact glyphsOf_cons _ _
  · rfl

theorem escapesOf_consDeclaration (d : Option Declaration) (a : Items) :
    escapesOf (a.consDeclaration d).declarations =
      (d.bind contentEscape).toList ++ escapesOf a.declarations := by
  rw [Items.consDeclaration, escapesOf, List.filterMap_append]
  congr 1
  cases d with
  | none => rfl
  | some d => cases h : contentEscape d <;> simp [h]

/-- A statement without a block gives the same escape on every line. -/
theorem escapesOf_consStatement_congr {a b : Items}
    (h : escapesOf a.declarations = escapesOf b.declarations) (text raw raw' : String)
    (line line' : Nat) :
    escapesOf (Items.consStatement text raw line a).declarations =
      escapesOf (Items.consStatement text raw' line' b).declarations := by
  rcases consStatement_eq text raw line a with ⟨head, heq, rest, htext⟩ | ⟨heq, hnot⟩ <;>
    rcases consStatement_eq text raw' line' b with ⟨head', heq', rest', htext'⟩ | ⟨heq', hnot'⟩
  · rw [heq, heq']
    exact h
  · exact absurd htext (hnot' rest)
  · exact absurd htext' (hnot rest')
  · rw [heq, heq', escapesOf_consDeclaration, escapesOf_consDeclaration, h]

theorem escapesOf_consStatement {text : String} (h : glyphOfText text = none) (raw : String)
    (line : Nat) (a : Items) :
    escapesOf (Items.consStatement text raw line a).declarations = escapesOf a.declarations := by
  rcases consStatement_eq text raw line a with ⟨head, heq, -⟩ | ⟨heq, -⟩ <;> rw [heq]
  · rfl
  · rw [escapesOf_consDeclaration, ← glyphOfText, h]
    rfl

/-- A statement with a block has the glyphs in it if it is an at-rule. Otherwise it gives the last
escape in it to the classes of the prelude. -/
theorem flatMap_rules_ofBlock (text : String) (inner : Items) (raw : String) (line : Nat) :
    (Node.ofBlock text inner raw line).rules.flatMap ruleGlyphs =
      if text.toList.head? = some '@' then glyphsOf inner.nodes
      else givenTo ((selectorList text).filterMap classOfSelector)
        (escapesOf inner.declarations).getLast? := by
  unfold Node.ofBlock
  split
  · rename_i rest htext
    rw [htext, List.head?_cons, if_pos rfl]
    rfl
  · rename_i hnot
    rw [if_neg fun h => hnot _ (List.head?_eq_some_iff.1 h).choose_spec, Node.rules,
      List.flatMap_singleton, ruleGlyphs, literalOfRule_eq]
    rfl

end GlyphTrim.Glyph
