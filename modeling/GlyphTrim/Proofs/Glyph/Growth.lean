import GlyphTrim.Proofs.Glyph.Plan

/-!
# More classes in use

When a scan finds more classes in use, nothing that was kept is given up. A class keeps its glyph
with the same escape, and the glyphs of the plan and the rules of the pruned stylesheet stay in
their order, with others between them (`sublist_glyphs_of_used`). The sections in front do not
depend on the classes at all.
-/

namespace GlyphTrim.Glyph

open Css Text

/-! ## The pruned stylesheet, in parts -/

/-- What stands in front of the rules for kept classes. -/
def headerText (sheet : Sheet) (base : String) : String :=
  Text.trim (String.join ((headerSections sheet base).map (· ++ "\n")))

/-- The rules that are written because they mention a kept class. -/
def bodyRules (sheet : Sheet) (retained : Retained) : List Rule :=
  (sheet.takeAtRules "font-face").1.rules.filter (mentions retained.keys)

/-- The pruned stylesheet that has these rules behind the sections in front. -/
def cssOfRules (sheet : Sheet) (base : String) (rules : List Rule) : String :=
  "\n\n".intercalate (banner :: headerText sheet base :: rules.map (·.raw))

theorem prunedCss_eq (sheet : Sheet) (retained : Retained) (base : String) :
    prunedCss sheet retained base = cssOfRules sheet base (bodyRules sheet retained) :=
  rfl

/-! ## What grows with the kept classes -/

theorem mentions_mono {classes classes' : List String} (h : classes ⊆ classes') {r : Rule}
    (hr : mentions classes r = true) : mentions classes' r = true := by
  simp only [mentions, List.any_eq_true] at hr ⊢
  obtain ⟨s, hs, c, hc, hcontains⟩ := hr
  exact ⟨s, hs, c, h hc, hcontains⟩

section

variable {retained retained' : Retained}
  (h : ∀ c literal, retained.find? c = some literal → retained'.find? c = some literal)

include h

theorem keys_subset : retained.keys ⊆ retained'.keys := by
  intro c hc
  obtain ⟨literal, hfind⟩ := NameMap.mem_keys_iff.1 hc
  exact NameMap.mem_keys_iff.2 ⟨literal, h c literal hfind⟩

theorem sublist_validGlyphs : (validGlyphs retained).Sublist (validGlyphs retained') :=
  (NameMap.sublist_entries h).filterMap _

theorem sublist_bodyRules (sheet : Sheet) :
    (bodyRules sheet retained).Sublist (bodyRules sheet retained') :=
  List.monotone_filter_right _ fun _ hr => mentions_mono (keys_subset h) hr

theorem sublist_text (font css : Path) :
    (Plan.ofRetained retained font css).text.toList.Sublist
      (Plan.ofRetained retained' font css).text.toList := by
  simp only [Plan.text, Plan.ofRetained, String.toList_ofList]
  exact (sublist_validGlyphs h).map _

end

/-- The escape of a class does not depend on the other classes in use. -/
theorem find?_reconcile_mono {used used' : NameSet}
    (h : ∀ c, used.contains c = true → used'.contains c = true) (sheet : Sheet)
    {c literal : String}
    (hc : (reconcile used (buildIndex sheet used)).find? c = some literal) :
    (reconcile used' (buildIndex sheet used')).find? c = some literal := by
  rw [find?_reconcile] at hc ⊢
  split at hc
  · rename_i hused
    rw [if_pos (h c hused)]
    exact hc
  · exact absurd hc (by simp)

/-- **More classes in use lose nothing**: each kept class stays with its escape, the planned glyphs
and the characters that are asked for stay in order, and the pruned stylesheet has the same sections
in front and the same rules behind them, with others in between. -/
theorem sublist_glyphs_of_used {used used' : NameSet}
    (h : ∀ c, used.contains c = true → used'.contains c = true) (sheet : Sheet) (base : String)
    (font css : Path) :
    let retained := reconcile used (buildIndex sheet used)
    let retained' := reconcile used' (buildIndex sheet used')
    let plan := Plan.ofRetained retained font css
    let plan' := Plan.ofRetained retained' font css
    (∀ c literal, retained.find? c = some literal → retained'.find? c = some literal) ∧
    plan.glyphs.Sublist plan'.glyphs ∧
    plan.request.text.toList.Sublist plan'.request.text.toList ∧
    prunedCss sheet retained base = cssOfRules sheet base (bodyRules sheet retained) ∧
    prunedCss sheet retained' base = cssOfRules sheet base (bodyRules sheet retained') ∧
    (bodyRules sheet retained).Sublist (bodyRules sheet retained') := by
  intro retained retained' plan plan'
  have hkept : ∀ c literal, retained.find? c = some literal → retained'.find? c = some literal :=
    fun c literal => find?_reconcile_mono h sheet
  exact ⟨hkept, sublist_validGlyphs hkept, sublist_text hkept font css,
    prunedCss_eq sheet retained base, prunedCss_eq sheet retained' base,
    sublist_bodyRules hkept sheet⟩

/-- A class that is only in use by mistake does not take the glyph of another one away. -/
theorem sublist_glyphs_iconCss :
    ∃ sheet, Sheet.parse iconCss = .ok sheet ∧
      (∀ c, (NameSet.ofList ["i-a"]).contains c = true →
        (NameSet.ofList ["b", "i-a"]).contains c = true) ∧
      (reconcile (NameSet.ofList ["b", "i-a"])
        (buildIndex sheet (NameSet.ofList ["b", "i-a"]))).find? "i-a" = some "\\e602" := by
  obtain ⟨sheet, hparse, hrules⟩ := exists_parse_iconCss
  have hused : ∀ c, (NameSet.ofList ["i-a"]).contains c = true →
      (NameSet.ofList ["b", "i-a"]).contains c = true := by
    intro c
    simp only [NameSet.contains_ofList]
    exact List.mem_cons_of_mem "b"
  have hlaw := sublist_glyphs_of_used hused sheet "i" ⟨"i.ttf"⟩ ⟨"i.css"⟩
  refine ⟨sheet, hparse, hused, hlaw.1 "i-a" _ ?_⟩
  rw [find?_reconcile, hrules]
  decide

end GlyphTrim.Glyph
