import GlyphTrim.Glyph.Plan
import GlyphTrim.Glyph.Pruned
import GlyphTrim.Proofs.Css.Source
import GlyphTrim.Proofs.Glyph.Index

/-!
# From a stylesheet to a plan

A run goes from the text of a stylesheet to an index, to the classes that are kept, and from these
to a plan and a pruned stylesheet. `mem_glyphs_iff_givesEscape` says what comes out at the end in
terms of the rules of the stylesheet: which glyphs are planned, in which order, which warnings are
given, and that no rule that declares a kept glyph is lost.
-/

namespace GlyphTrim.Glyph

open Css Text

/-! ## Plans -/

theorem mem_validGlyphs_iff {retained : Retained} {c : String} {ch : Char} :
    (c, ch) ∈ validGlyphs retained ↔
      ∃ literal, retained.find? c = some literal ∧ parseCodepoint literal = some ch := by
  rw [validGlyphs, List.mem_filterMap]
  constructor
  · rintro ⟨⟨c', literal⟩, hmem, h⟩
    obtain ⟨ch', hch, heq⟩ := Option.map_eq_some_iff.1 h
    obtain ⟨rfl, rfl⟩ := Prod.mk.inj heq
    exact ⟨literal, NameMap.mem_entries_iff.1 hmem, hch⟩
  · rintro ⟨literal, hfind, hch⟩
    refine ⟨(c, literal), NameMap.mem_entries_iff.2 hfind, ?_⟩
    show (parseCodepoint literal).map (c, ·) = some (c, ch)
    rw [hch]
    rfl

/-- The glyphs stand in order of their classes. -/
theorem pairwise_validGlyphs (retained : Retained) :
    (validGlyphs retained).Pairwise (·.1 < ·.1) := by
  rw [validGlyphs, List.pairwise_filterMap]
  apply retained.ordered.imp
  rintro ⟨c, literal⟩ ⟨c', literal'⟩ hlt g hg g' hg'
  obtain ⟨ch, -, rfl⟩ := Option.map_eq_some_iff.1 hg
  obtain ⟨ch', -, rfl⟩ := Option.map_eq_some_iff.1 hg'
  exact hlt

theorem mem_names_validGlyphs_iff {retained : Retained} {c literal : String}
    (hmem : (c, literal) ∈ retained.entries) :
    c ∈ (validGlyphs retained).map (·.1) ↔ (parseCodepoint literal).isSome = true := by
  rw [List.mem_map, Option.isSome_iff_exists]
  constructor
  · rintro ⟨⟨c, ch⟩, hglyph, rfl⟩
    obtain ⟨literal', hfind, hch⟩ := mem_validGlyphs_iff.1 hglyph
    obtain rfl := Option.some.inj (hfind.symm.trans (NameMap.mem_entries_iff.1 hmem))
    exact ⟨ch, hch⟩
  · rintro ⟨ch, hch⟩
    exact ⟨(c, ch), mem_validGlyphs_iff.2 ⟨literal, NameMap.mem_entries_iff.1 hmem, hch⟩, rfl⟩

/-- There is one warning for each class that is kept without a glyph. -/
theorem codepointWarnings_eq (retained : Retained) :
    codepointWarnings retained =
      (retained.entries.filter fun e => e.1 ∉ (validGlyphs retained).map (·.1)).map
        fun e => codepointWarning e.1 e.2 := by
  rw [codepointWarnings, ← List.filterMap_eq_map, List.filterMap_filter]
  apply List.filterMap_congr
  intro e he
  obtain ⟨c, literal⟩ := e
  have hglyph := mem_names_validGlyphs_iff he
  by_cases hvalid : (parseCodepoint literal).isSome = true
  · have hmem := hglyph.2 hvalid
    simp only [hvalid, hmem, not_true_eq_false, decide_false, if_true]
    rfl
  · have hmem : c ∉ (validGlyphs retained).map (·.1) := fun h => hvalid (hglyph.1 h)
    simp only [hvalid, hmem, not_false_eq_true, decide_true, if_true]
    rfl

/-! ## Pruned stylesheets -/

theorem contains_iff {part : List Char} : ∀ {text : List Char},
    contains text part = true ↔ part <:+: text := by
  intro text
  induction text with
  | nil => rw [contains]; simp
  | cons c text ih => rw [contains]; simp [ih, List.infix_cons_iff]

theorem mentions_of_glyphSelector {classes : List String} {c : String} (hc : c ∈ classes)
    {r : Rule} (hr : glyphSelector c ∈ r.selectors) : mentions classes r = true := by
  rw [mentions, List.any_eq_true]
  refine ⟨_, hr, List.any_eq_true.2 ⟨c, hc, contains_iff.2 ?_⟩⟩
  rw [toList_glyphSelector, selectorOfClass, String.toList_append]
  exact ⟨[], glyphEnding, rfl⟩

/-- The rules that are left when the font faces are cut out. -/
theorem raw_infix_of_mentions {sheet : Sheet} {retained : Retained} {r : Rule}
    (hr : r ∈ Node.rulesOfAll (Node.cutAll "font-face" sheet.nodes).1)
    (hmentions : mentions retained.keys r = true) (base : String) :
    r.raw.toList <:+: (prunedCss sheet retained base).toList := by
  have hbody : r.raw ∈ bodySections sheet retained :=
    List.mem_map_of_mem (List.mem_filter.2 ⟨hr, hmentions⟩)
  exact infix_intercalate (List.mem_cons_of_mem _ (List.mem_cons_of_mem _ hbody))

/-- What stands behind a brace in a font face. -/
theorem infix_of_mem_face {sheet : Sheet} {f : Node} {a b w : List Char}
    (hf : f ∈ (Node.cutAll "font-face" sheet.nodes).2) (hraw : f.raw.toList = a ++ '\x7b' :: b)
    (hw : w <:+: b) (hink : EndsInk w) (retained : Retained) (base : String) :
    w <:+: (prunedCss sheet retained base).toList := by
  have hheader : f.raw ++ "\n" ∈ (headerSections sheet base).map (· ++ "\n") :=
    List.mem_map_of_mem (List.mem_append_left _ (List.mem_map_of_mem hf))
  obtain ⟨before, after, hsections⟩ := List.append_of_mem hheader
  have hjoin : (String.join ((headerSections sheet base).map (· ++ "\n"))).toList =
      (before.flatMap String.toList ++ a) ++ '\x7b' :: (b ++ '\n' :: after.flatMap String.toList) := by
    rw [hsections, String.toList_join, List.flatMap_append, List.flatMap_cons,
      String.toList_append, hraw]
    simp
  have hwhole : w <:+: b ++ '\n' :: after.flatMap String.toList :=
    hw.trans (List.prefix_append _ _).isInfix
  have htrim : w <:+: (Text.trim (String.join ((headerSections sheet base).map (· ++ "\n")))).toList := by
    rw [Text.trim, String.toList_ofList, hjoin]
    exact infix_trimChars (by decide) hwhole hink
  exact htrim.trans (infix_intercalate (List.mem_cons_of_mem _ List.mem_cons_self))

/-- **No rule of a kept glyph is lost**: the pruned stylesheet holds the text of every rule that
lists the selector of a kept class. -/
theorem raw_infix_prunedCss {sheet : Sheet} {cs : List Char} (hstand : StandIn sheet.nodes cs)
    {retained : Retained} {c : String} (hc : c ∈ retained.keys) {r : Rule}
    (hr : r ∈ sheet.rules) (hselector : glyphSelector c ∈ r.selectors) (base : String) :
    r.raw.toList <:+: (prunedCss sheet retained base).toList := by
  rcases (Node.mem_rulesOfAll_iff_cutAll "font-face" sheet.nodes).1 hr with hleft | ⟨f, hf, hrf⟩
  · exact raw_infix_of_mentions hleft (mentions_of_glyphSelector hc hselector) base
  · have hfs := Node.mem_withinAll_of_mem_cutAll "font-face" sheet.nodes hf
    have hrs := (Node.mem_rulesOfAll_iff sheet.nodes).1 hr
    obtain ⟨head, children, rfl, -⟩ := Node.exists_atRule_of_mem_cutAll _ sheet.nodes hf
    have hin := (Node.mem_rulesOfAll_iff children).1 hrf
    obtain ⟨a, b, hraw, hinfix⟩ := hstand.holdsChildren _ hfs _ hin
    exact infix_of_mem_face hf hraw hinfix (hstand.endsInk _ hrs) retained base

/-! ## From the text to the plan -/

/-- **The glyphs of a plan are those that the rules declare**: a class in use has a glyph exactly
if the last escape that the rules give it is a character. The glyphs are in order, each kept class
without a glyph has one warning, and the pruned stylesheet holds all rules that declare the glyph
of a kept class. -/
theorem mem_glyphs_iff_givesEscape {css : String} {sheet : Sheet}
    (hparse : Sheet.parse css = .ok sheet) {used : NameSet}
    (hused : ∀ c, used.contains c = true → c ≠ "") (base : String) (font cssPath : Path) :
    let retained := reconcile used (buildIndex sheet used)
    let plan := Plan.ofRetained retained font cssPath
    (∀ c ch, (c, ch) ∈ plan.glyphs ↔ used.contains c = true ∧
      ∃ literal, GivesEscape sheet.rules c literal ∧ parseCodepoint literal = some ch) ∧
    plan.glyphs.Pairwise (·.1 < ·.1) ∧
    plan.warnings = (retained.entries.filter fun e => e.1 ∉ plan.glyphs.map (·.1)).map
      (fun e => codepointWarning e.1 e.2) ∧
    ∀ c ∈ retained.keys, ∀ r ∈ sheet.rules, glyphSelector c ∈ r.selectors →
      r.raw.toList <:+: (prunedCss sheet retained base).toList := by
  intro retained plan
  refine ⟨fun c ch => ?_, pairwise_validGlyphs retained, codepointWarnings_eq retained, ?_⟩
  · have hglyph : (c, ch) ∈ plan.glyphs ↔ ∃ literal, retained.find? c = some literal ∧
      parseCodepoint literal = some ch := mem_validGlyphs_iff
    rw [hglyph]
    simp only [retained, find?_reconcile]
    cases hc : used.contains c with
    | false => simp
    | true => simp [lastGlyph_eq_some_iff (hused c hc)]
  · intro c hc r hr hselector
    exact raw_infix_prunedCss (parse_standIn hparse) hc hr hselector base

/-- A stylesheet with the glyph of a class, declared twice. -/
def iconCss : String :=
  "@font-face\x7bsrc:url(i.ttf)\x7d .i\x7btop:0\x7d @media print\x7b.i-a:before\x7bcontent:\"\\e601\"\x7d\x7d " ++
    ".i-a:before,.b\x7bcontent:none;content:\"\\e602\"\x7d"

/-- The rules of the stylesheet. -/
def iconRules : List Rule :=
  [⟨".i", [⟨"top", "0", false⟩], 1, ".i\x7btop:0\x7d"⟩,
    ⟨".i-a:before", [⟨"content", "\"\\e601\"", false⟩], 1, ".i-a:before\x7bcontent:\"\\e601\"\x7d"⟩,
    ⟨".i-a:before,.b", [⟨"content", "none", false⟩, ⟨"content", "\"\\e602\"", false⟩], 1,
      ".i-a:before,.b\x7bcontent:none;content:\"\\e602\"\x7d"⟩]

theorem exists_parse_iconCss :
    ∃ sheet, Sheet.parse iconCss = .ok sheet ∧ sheet.rules = iconRules := by
  have hrules : (Sheet.parse iconCss).toOption.map (·.rules) = some iconRules := by
    decide +kernel
  cases h : Sheet.parse iconCss with
  | error e => simp [h, Except.toOption] at hrules
  | ok sheet => exact ⟨sheet, rfl, by simpa [h, Except.toOption] using hrules⟩

/-- The last escape of the last rule counts. -/
theorem givesEscape_iconRules : GivesEscape iconRules "i-a" "\\e602" := by
  refine ⟨iconRules[2], ⟨iconRules.take 2, [], rfl, ⟨by decide, ?_⟩, by simp⟩, ?_⟩
  · exact ⟨⟨"content", "\"\\e602\"", false⟩, by decide, "\\e602", by decide⟩
  · refine ⟨⟨"content", "\"\\e602\"", false⟩, ⟨[⟨"content", "none", false⟩], [], by decide, ?_⟩, ?_⟩
    · exact ⟨⟨"\\e602", by decide⟩, by simp⟩
    · decide

theorem mem_glyphs_iconCss :
    ∃ sheet, Sheet.parse iconCss = .ok sheet ∧
      (∀ c, (NameSet.ofList ["i-a"]).contains c = true → c ≠ "") ∧
      ("i-a", Char.ofNat 0xE602) ∈ (Plan.ofRetained (reconcile (NameSet.ofList ["i-a"])
        (buildIndex sheet (NameSet.ofList ["i-a"]))) ⟨"i.ttf"⟩ ⟨"i.css"⟩).glyphs := by
  obtain ⟨sheet, hparse, hrules⟩ := exists_parse_iconCss
  have hused : ∀ c, (NameSet.ofList ["i-a"]).contains c = true → c ≠ "" := by
    rintro c hc rfl
    exact absurd hc (by decide)
  have hlaw := mem_glyphs_iff_givesEscape hparse hused "i" ⟨"i.ttf"⟩ ⟨"i.css"⟩
  refine ⟨sheet, hparse, hused, (hlaw.1 _ _).2 ⟨by decide, "\\e602", ?_, by decide⟩⟩
  rw [hrules]
  exact givesEscape_iconRules

end GlyphTrim.Glyph
