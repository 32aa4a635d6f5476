import GlyphTrim.Proofs.Css.Assembly
import GlyphTrim.Proofs.Glyph.Plan

/-!
# Reading a pruned stylesheet again

A pruned stylesheet is put together of statements that were cut out of another one. It is read
again as these statements (`says_prunedCss`), and the glyphs that it gives to the classes in use are
the ones that were kept (`reconcile_prunedCss`). This needs a stylesheet that closes its brackets
and whose font faces have blocks without rules.
-/

namespace GlyphTrim.Glyph

open Css Text

/-! ## The glyphs of the rules that stay -/

/-- The glyph of a rule stands in what the rule says. -/
theorem glyphOf_content (c : String) (r : Rule) :
    glyphOf c r = glyphOf c ⟨r.content.1, r.content.2, 0, ""⟩ :=
  rfl

theorem lastGlyph_congr {rules rules' : List Rule}
    (h : rules.map Rule.content = rules'.map Rule.content) (c : String) :
    lastGlyph c rules = lastGlyph c rules' := by
  have hcontent : ∀ rules : List Rule, rules.filterMap (glyphOf c) =
      (rules.map Rule.content).filterMap fun r => glyphOf c ⟨r.1, r.2, 0, ""⟩ := by
    intro rules
    rw [List.filterMap_map]
    apply List.filterMap_congr
    intro r hr
    exact glyphOf_content c r
  rw [lastGlyph, lastGlyph, hcontent, hcontent, h]

/-- Rules that stand in front of all that give a class a glyph do not count. -/
theorem lastGlyph_filter_append_filter {c : String} {rules : List Rule} (front : Rule → Bool)
    {back : Rule → Bool} (hback : ∀ r ∈ rules, glyphOf c r ≠ none → back r = true) :
    lastGlyph c (rules.filter front ++ rules.filter back) = lastGlyph c rules := by
  have hfilter : (rules.filter back).filterMap (glyphOf c) = rules.filterMap (glyphOf c) := by
    rw [List.filterMap_filter]
    apply List.filterMap_congr
    intro r hr
    by_cases hglyph : glyphOf c r = none
    · simp [hglyph]
    · rw [if_pos (hback r hr hglyph)]
  rw [lastGlyph, lastGlyph, List.filterMap_append, hfilter]
  by_cases hnil : rules.filterMap (glyphOf c) = []
  · have hfront : (rules.filter front).filterMap (glyphOf c) = [] := by
      rw [List.filterMap_eq_nil_iff] at hnil ⊢
      exact fun r hr => hnil r (List.mem_of_mem_filter hr)
    rw [hnil, hfront]
    rfl
  · exact List.getLast?_append_of_ne_nil _ hnil

theorem glyphSelector_mem_of_glyphOf {c literal : String} {r : Rule}
    (h : glyphOf c r = some literal) : glyphSelector c ∈ r.selectors := by
  rw [glyphOf] at h
  split at h
  · rename_i hmem
    obtain ⟨s, hs, hsc⟩ := List.mem_filterMap.1 hmem
    obtain ⟨-, rfl⟩ := classOfSelector_eq_some_iff.1 hsc
    exact hs
  · exact absurd h (by simp)

/-- The rules that stay give a class in use the glyph that all the rules give it. -/
theorem lastGlyph_filter_mentions {used : NameSet} {sheet : Sheet} {c : String}
    (hc : used.contains c = true) (front : Rule → Bool) :
    lastGlyph c (sheet.rules.filter front ++
      sheet.rules.filter (mentions (reconcile used (buildIndex sheet used)).keys)) =
      lastGlyph c sheet.rules := by
  apply lastGlyph_filter_append_filter
  intro r hr hglyph
  obtain ⟨literal, hliteral⟩ := Option.ne_none_iff_exists'.1 hglyph
  have hmem : literal ∈ sheet.rules.filterMap (glyphOf c) := List.mem_filterMap.2 ⟨r, hr, hliteral⟩
  have hkey : c ∈ (reconcile used (buildIndex sheet used)).keys := by
    rw [NameMap.mem_keys_iff, find?_reconcile, if_pos hc]
    exact ⟨_, List.getLast?_eq_some_getLast (List.ne_nil_of_mem hmem)⟩
  exact mentions_of_glyphSelector hkey (glyphSelector_mem_of_glyphOf hliteral)

/-! ## Reading again -/

theorem forall₂_map_map {α β γ : Type} {R : β → γ → Prop} {f : α → β} {g : α → γ} {l : List α}
    (h : ∀ a ∈ l, R (f a) (g a)) : List.Forall₂ R (l.map f) (l.map g) := by
  rw [List.forall₂_map_left_iff, List.forall₂_map_right_iff, List.forall₂_same]
  exact h

/-- The rules that a pruned stylesheet is put together of, when no font face holds a rule. -/
def prunedRules (sheet : Sheet) (retained : Retained) (base : String) : List Rule :=
  (sheet.rules.filter fun r => r.selector == selectorOfClass base) ++
    sheet.rules.filter (mentions retained.keys)

section

variable {css : String} {sheet : Sheet}

theorem isSection_of_mem_faces (hparse : Sheet.parse css = .ok sheet)
    (hclosed : Balanced (tokens (dropMark css.toList))) {f : Node}
    (hf : f ∈ (sheet.takeAtRules "font-face").2) (hface : f.hasBlock = true ∧ f.rules = []) :
    IsSection f.raw [] := by
  have hmem := Node.mem_withinAll_of_mem_cutAll "font-face" sheet.nodes hf
  obtain ⟨ts, hlexed, h⟩ := (hasBlock_iff_exists_isBlock hparse hclosed hmem).1 hface.1
  obtain ⟨head, children, rfl, -⟩ := Node.exists_atRule_of_mem_cutAll _ sheet.nodes hf
  have hsection := h.isSection hlexed (.atRule head children)
  rw [hface.2] at hsection
  exact hsection

theorem isSection_of_selector_eq (hparse : Sheet.parse css = .ok sheet)
    (hclosed : Balanced (tokens (dropMark css.toList))) {r : Rule} (hr : r ∈ sheet.rules)
    {base : String} (hselector : r.selector = selectorOfClass base) :
    IsSection r.raw [r.content] := by
  have hmem := (Node.mem_rulesOfAll_iff sheet.nodes).1 hr
  obtain ⟨ts, hlexed, h⟩ := (hasBlock_iff_exists_isBlock hparse hclosed hmem).1 rfl
  have hmark : r.selector.toList = '.' :: base.toList := by
    rw [hselector, selectorOfClass, String.toList_append]
    rfl
  exact h.isSection hlexed (.rule hmark)

theorem leads_of_mem_rules (hparse : Sheet.parse css = .ok sheet)
    (hclosed : Balanced (tokens (dropMark css.toList))) {r : Rule} (hr : r ∈ sheet.rules) :
    Leads r.raw.toList [r.content] := by
  have hmem := (Node.mem_rulesOfAll_iff sheet.nodes).1 hr
  obtain ⟨ts, hlexed, h⟩ := (hasBlock_iff_exists_isBlock hparse hclosed hmem).1 rfl
  have hraw : r.raw.toList = sourceText ts := h.isStatement.toList_raw hlexed.marked
  rw [hraw]
  exact h.leads hlexed

/-- **A pruned stylesheet** says what the rules say that it is put together of. -/
theorem says_prunedCss (hparse : Sheet.parse css = .ok sheet)
    (hclosed : Balanced (tokens (dropMark css.toList)))
    (hfaces : ∀ f ∈ (sheet.takeAtRules "font-face").2, f.hasBlock = true ∧ f.rules = [])
    (retained : Retained) (base : String) :
    Says (prunedCss sheet retained base).toList
      ((prunedRules sheet retained base).map Rule.content) := by
  have hrest : (sheet.takeAtRules "font-face").1.rules = sheet.rules :=
    Node.rulesOfAll_cutAll fun f hf => (hfaces f hf).2
  have hheader : List.Forall₂ IsSection (headerSections sheet base)
      ((sheet.takeAtRules "font-face").2.map (fun _ => []) ++
        (sheet.rules.filter fun r => r.selector == selectorOfClass base).map fun r =>
          [r.content]) := by
    rw [← hrest]
    refine List.rel_append (forall₂_map_map fun f hf => ?_) (forall₂_map_map fun r hr => ?_)
    · exact isSection_of_mem_faces hparse hclosed hf (hfaces f hf)
    · obtain ⟨hmem, hselector⟩ := List.mem_filter.1 hr
      have hrule : r ∈ sheet.rules := by
        rw [← hrest]
        exact hmem
      exact isSection_of_selector_eq hparse hclosed hrule (eq_of_beq hselector)
  have hbody : List.Forall₂ (fun s rs => Leads s.toList rs) (bodySections sheet retained)
      ((sheet.rules.filter (mentions retained.keys)).map fun r => [r.content]) := by
    rw [← hrest]
    apply forall₂_map_map
    intro r hr
    have hrule : r ∈ sheet.rules := by
      rw [← hrest]
      exact List.mem_of_mem_filter hr
    exact leads_of_mem_rules hparse hclosed hrule
  have hbanner : Leads banner.toList [] := by
    have hstar : '*' ∉ " Auto-generated minified iconfont ".toList := by decide
    exact (opens_comment hstar).leads
  have hwhole := leads_intercalate hbanner (.cons (leads_trim_join hheader) hbody)
  have hsays := hwhole.says
  have hsingle : ∀ rules : List Rule,
      (rules.map fun r => [r.content]).flatten = rules.map Rule.content := by
    intro rules
    rw [← List.flatMap_def, ← List.map_eq_flatMap]
  have hnone : ((sheet.takeAtRules "font-face").2.map fun _ =>
      ([] : List (String × List Declaration))).flatten = [] := by simp
  rw [List.nil_append, List.flatten_cons, List.flatten_append, hsingle, hsingle, hnone,
    List.nil_append] at hsays
  rw [prunedRules, List.map_append]
  exact hsays

end

/-- **Pruning keeps the glyphs**: a pruned stylesheet can be read again, and it gives the classes in
use the glyphs that were kept, and no others. -/
theorem reconcile_prunedCss {css : String} {sheet : Sheet} (hparse : Sheet.parse css = .ok sheet)
    (hclosed : Balanced (tokens (dropMark css.toList)))
    (hfaces : ∀ f ∈ (sheet.takeAtRules "font-face").2, f.hasBlock = true ∧ f.rules = [])
    (used : NameSet) (base : String) :
    let retained := reconcile used (buildIndex sheet used)
    ∃ out, Sheet.parse (prunedCss sheet retained base) = .ok out ∧
      reconcile used (buildIndex out used) = retained := by
  intro retained
  obtain ⟨items, hreads, hrules⟩ := says_prunedCss hparse hclosed hfaces retained base
  have hmark : dropMark (prunedCss sheet retained base).toList =
      (prunedCss sheet retained base).toList := by
    rw [prunedCss, String.intercalate_cons_cons, String.toList_append]
    rfl
  refine ⟨⟨items.nodes⟩, parse_eq_ok_iff.2 ⟨items, by rw [hmark]; exact hreads, rfl⟩, ?_⟩
  apply NameMap.ext_find?
  intro c
  rw [find?_reconcile, find?_reconcile]
  cases hc : used.contains c with
  | false => rfl
  | true =>
    have hout : lastGlyph c (Sheet.rules ⟨items.nodes⟩) =
        lastGlyph c (prunedRules sheet retained base) := lastGlyph_congr hrules c
    rw [hout, prunedRules, lastGlyph_filter_mentions hc]

theorem faces_iconCss {sheet : Sheet} (hparse : Sheet.parse iconCss = .ok sheet) :
    ∀ f ∈ (sheet.takeAtRules "font-face").2, f.hasBlock = true ∧ f.rules = [] := by
  have hall : (Sheet.parse iconCss).toOption.map (fun sheet =>
      (sheet.takeAtRules "font-face").2.all fun f => f.hasBlock && f.rules.isEmpty) =
      some true := by
    decide +kernel
  intro f hf
  rw [hparse] at hall
  have hface := List.all_eq_true.1 (Option.some.inj hall) f hf
  simpa using hface

theorem reconcile_prunedCss_iconCss :
    ∃ sheet, Sheet.parse iconCss = .ok sheet ∧ Balanced (tokens (dropMark iconCss.toList)) ∧
      (∀ f ∈ (sheet.takeAtRules "font-face").2, f.hasBlock = true ∧ f.rules = []) ∧
      ∃ out, Sheet.parse (prunedCss sheet (reconcile (NameSet.ofList ["i-a"])
          (buildIndex sheet (NameSet.ofList ["i-a"]))) "i") = .ok out ∧
        (reconcile (NameSet.ofList ["i-a"]) (buildIndex out (NameSet.ofList ["i-a"]))).find? "i-a" =
          some "\\e602" := by
  obtain ⟨sheet, hparse, hrules⟩ := exists_parse_iconCss
  have hclosed : Balanced (tokens (dropMark iconCss.toList)) := by decide +kernel
  have hfaces := faces_iconCss hparse
  obtain ⟨out, hout, hretained⟩ :=
    reconcile_prunedCss hparse hclosed hfaces (NameSet.ofList ["i-a"]) "i"
  refine ⟨sheet, hparse, hclosed, hfaces, out, hout, ?_⟩
  rw [hretained, find?_reconcile, hrules]
  decide

end GlyphTrim.Glyph
