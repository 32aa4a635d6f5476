import GlyphTrim.Proofs.Css.Outline
import GlyphTrim.Proofs.Glyph.Sections

/-!
# Which nodes are written, and how often

The sections of a pruned stylesheet are the font faces that stand in no other one, the rules of the
base class and the rules that mention a kept class, and each of these lists is told by the addresses
of its nodes (`isSurvey_selection`). A rule is written with its own sections and with that of a font
face that it stands in, so it is written once, unless it is a rule of the base class and the base
class mentions a kept class (`timesWritten_le_one_iff`).
-/

namespace GlyphTrim.Glyph

open Css Text

/-! ## The nodes that are written -/

/-- A selector of a list holds the selector of one of the classes. -/
def Mentions (classes : List String) (selector : String) : Prop :=
  ∃ s ∈ selectorList selector, ∃ c ∈ classes, (selectorOfClass c).toList <:+: s.toList

theorem mentions_iff {classes : List String} {r : Rule} :
    mentions classes r = true ↔ Mentions classes r.selector := by
  simp only [mentions, Mentions, Rule.selectors, List.any_eq_true, contains_iff]

instance (classes : List String) (selector : String) : Decidable (Mentions classes selector) :=
  decidable_of_iff (mentions classes ⟨selector, [], 0, ""⟩ = true) mentions_iff

/-- The nodes of the sections of a pruned stylesheet, with their addresses. -/
structure Selection where
  /-- The font faces. -/
  faces : List (Address × Node)
  /-- The rules of the base class. -/
  bases : List (Address × Node)
  /-- The rules that mention a class that keeps its glyph. -/
  body : List (Address × Node)

/-- The nodes that are selected in the outline of a stylesheet for its font faces. -/
def selection (sheet : Sheet) (retained : Retained) (base : String) : Selection :=
  let outline := sheet.outline "font-face"
  { faces := outline.filter fun f => f.2.isCalled "font-face"
    bases := outline.filter fun f => f.2.rule?.any fun r => r.selector == selectorOfClass base
    body := outline.filter fun f => f.2.rule?.any (mentions retained.keys) }

namespace Selection

/-- The stylesheet with a section for each of the nodes. -/
def text (s : Selection) : String :=
  let header := Text.trim (String.join ((s.faces ++ s.bases).map fun f => f.2.raw ++ "\n"))
  "\n\n".intercalate (banner :: header :: s.body.map fun f => f.2.raw)

/-- How often the source text of a node is written: with the sections of the node itself, and with
those of the at-rules that it stands in. -/
def timesWritten (s : Selection) (l : Address) : Nat :=
  (s.faces ++ s.bases ++ s.body).countP fun f => f.1.isPrefixOf l

end Selection

theorem filter_rule?_any (q : Rule → Bool) (ns : List Node) :
    ns.filter (·.rule?.any q) = ((ns.filterMap Node.rule?).filter q).map .rule := by
  induction ns with
  | nil => rfl
  | cons n ns ih =>
    cases n with
    | rule r =>
      have hrule : Node.rule? (.rule r) = some r := rfl
      rw [List.filter_cons, List.filterMap_cons_some hrule, List.filter_cons, hrule,
        Option.any_some, ih]
      split <;> rfl
    | atRule head children =>
      have hnone : Node.rule? (.atRule head children) = none := rfl
      rw [List.filter_cons_of_neg (by simp [hnone]), List.filterMap_cons_none hnone, ih]

/-- The rules of the outline with a property. -/
theorem map_snd_filter_outline (sheet : Sheet) (name : String) (q : Rule → Bool) :
    ((sheet.outline name).filter fun f => f.2.rule?.any q).map (·.2) =
      ((sheet.takeAtRules name).1.rules.filter q).map .rule := by
  rw [← Sheet.filterMap_outline, ← filter_rule?_any, List.filter_map]
  rfl

section

variable (sheet : Sheet) (retained : Retained) (base : String)

theorem map_snd_faces_append_bases :
    ((selection sheet retained base).faces ++ (selection sheet retained base).bases).map (·.2) =
      headerNodes sheet base := by
  have hfaces : (selection sheet retained base).faces.map (·.2) =
      (sheet.takeAtRules "font-face").2 := by
    rw [← Sheet.filter_outline, List.filter_map]
    rfl
  rw [List.map_append, hfaces, headerNodes]
  exact congrArg _ (map_snd_filter_outline sheet "font-face" _)

theorem map_snd_body : (selection sheet retained base).body.map (·.2) = bodyNodes sheet retained :=
  map_snd_filter_outline sheet "font-face" _

theorem prunedCss_eq_text :
    prunedCss sheet retained base = (selection sheet retained base).text := by
  rw [prunedCss, ← map_raw_headerNodes, ← map_raw_bodyNodes,
    ← map_snd_faces_append_bases sheet retained base, ← map_snd_body sheet retained base,
    List.map_map, List.map_map, List.map_map]
  rfl

theorem isSurvey_faces : sheet.IsSurvey
    (fun l n => n.isCalled "font-face" = true ∧ ¬Beneath sheet.at? "font-face" l)
    (selection sheet retained base).faces :=
  sheet.isSurvey_filter_outline (fun _ => Iff.rfl) "font-face"

theorem isSurvey_bases : sheet.IsSurvey
    (fun l n => (∃ r, n = .rule r ∧ r.selector = selectorOfClass base) ∧
      ¬Beneath sheet.at? "font-face" l)
    (selection sheet retained base).bases := by
  have hbase : ∀ n : Node, n.rule?.any (fun r => r.selector == selectorOfClass base) = true ↔
      ∃ r, n = .rule r ∧ r.selector = selectorOfClass base := by
    simp only [Option.any_eq_true, Node.rule?_eq_some_iff, beq_iff_eq, implies_true]
  exact sheet.isSurvey_filter_outline hbase "font-face"

theorem isSurvey_body : sheet.IsSurvey
    (fun l n => (∃ r, n = .rule r ∧ Mentions retained.keys r.selector) ∧
      ¬Beneath sheet.at? "font-face" l)
    (selection sheet retained base).body := by
  have hmentions : ∀ n : Node, n.rule?.any (mentions retained.keys) = true ↔
      ∃ r, n = .rule r ∧ Mentions retained.keys r.selector := by
    simp only [Option.any_eq_true, Node.rule?_eq_some_iff, mentions_iff, implies_true]
  exact sheet.isSurvey_filter_outline hmentions "font-face"

end

/-- **The sections of a pruned stylesheet**: in front the font faces that stand in no other one and
then the rules of the base class, behind them the rules that mention a kept class. Rules in font
faces do not count, each node has one section in a list, and each list is in the order of the
document. -/
theorem isSurvey_selection (sheet : Sheet) (retained : Retained) (base : String) :
    let s := selection sheet retained base
    let header := Text.trim (String.join ((s.faces ++ s.bases).map fun f => f.2.raw ++ "\n"))
    prunedCss sheet retained base =
        "\n\n".intercalate (banner :: header :: s.body.map fun f => f.2.raw) ∧
      sheet.IsSurvey (fun l n => n.isCalled "font-face" = true ∧
        ¬Beneath sheet.at? "font-face" l) s.faces ∧
      sheet.IsSurvey (fun l n => (∃ r, n = .rule r ∧ r.selector = selectorOfClass base) ∧
        ¬Beneath sheet.at? "font-face" l) s.bases ∧
      sheet.IsSurvey (fun l n => (∃ r, n = .rule r ∧ Mentions retained.keys r.selector) ∧
        ¬Beneath sheet.at? "font-face" l) s.body :=
  ⟨prunedCss_eq_text sheet retained base, isSurvey_faces sheet retained base,
    isSurvey_bases sheet retained base, isSurvey_body sheet retained base⟩

/-! ## How often a rule is written -/

section

variable {sheet : Sheet} {p : Address → Node → Prop} {found : List (Address × Node)} {l k : Address}

/-- Of a survey with one address that leads to a place, one node is around the place. -/
theorem countP_isPrefixOf (hfound : sheet.IsSurvey p found)
    (h : ∀ f ∈ found, f.1 <+: l ↔ f.1 = k) :
    found.countP (fun f => f.1.isPrefixOf l) = if k ∈ found.map (·.1) then 1 else 0 := by
  have hnodup : (found.map (·.1)).Nodup := by
    refine List.pairwise_map.2 (hfound.increasing.imp fun {f g} hlt heq => ?_)
    rw [heq] at hlt
    exact List.lt_irrefl _ hlt
  have hcount : found.countP (fun f => f.1.isPrefixOf l) = (found.map (·.1)).count k := by
    rw [List.count, List.countP_map]
    refine List.countP_congr fun f hf => ?_
    rw [List.isPrefixOf_iff_prefix, h f hf, Function.comp_apply, beq_iff_eq]
  rw [hcount, hnodup.count]

theorem mem_addresses_iff_of_isSurvey (hfound : sheet.IsSurvey p found) {n : Node}
    (hn : sheet.at? l = some n) : l ∈ found.map (·.1) ↔ p l n := by
  rw [List.mem_map]
  constructor
  · rintro ⟨⟨l, m⟩, hf, rfl⟩
    obtain ⟨hm, hp⟩ := (hfound.mem_iff l m).1 hf
    obtain rfl := Option.some.inj (hm.symm.trans hn)
    exact hp
  · exact fun hp => ⟨(l, n), (hfound.mem_iff l n).2 ⟨hn, hp⟩, rfl⟩

end

section

variable {sheet : Sheet} {found : List (Address × Node)} {l : Address} {r : Rule} {q : Rule → Prop}
  (hfound : sheet.IsSurvey (fun l n => (∃ r, n = .rule r ∧ q r) ∧
    ¬Beneath sheet.at? "font-face" l) found) (hr : sheet.at? l = some (.rule r))

include hfound hr

/-- Of the rules that a survey lists, none is around another one. -/
theorem countP_rules : found.countP (fun f => f.1.isPrefixOf l) =
    if l ∈ found.map (·.1) then 1 else 0 := by
  refine countP_isPrefixOf hfound fun f hf => ⟨fun h => ?_, fun h => h ▸ List.prefix_rfl⟩
  obtain ⟨hm, ⟨r', hr', -⟩, -⟩ := (hfound.mem_iff f.1 f.2).1 hf
  exact Sheet.eq_of_prefix_of_at? h (hm.trans (congrArg some hr')) hr

theorem countP_rules_of_beneath (h : Beneath sheet.at? "font-face" l) :
    found.countP (fun f => f.1.isPrefixOf l) = 0 := by
  rw [countP_rules hfound hr, if_neg]
  exact fun hl => ((mem_addresses_iff_of_isSurvey hfound hr).1 hl).2 h

theorem countP_rules_of_not_beneath [Decidable (q r)] (h : ¬Beneath sheet.at? "font-face" l) :
    found.countP (fun f => f.1.isPrefixOf l) = if q r then 1 else 0 := by
  have hrule : (∃ r', Node.rule r = .rule r' ∧ q r') ↔ q r := by simp
  rw [countP_rules hfound hr]
  simp only [mem_addresses_iff_of_isSurvey hfound hr, hrule, h, not_false_eq_true, and_true]

end

section

variable {sheet : Sheet} {retained : Retained} {base : String} {l : Address} {r : Rule}

/-- One font face is written with what stands in font faces. -/
theorem countP_faces_of_beneath (h : Beneath sheet.at? "font-face" l) :
    (selection sheet retained base).faces.countP (fun f => f.1.isPrefixOf l) = 1 := by
  have hfaces := isSurvey_faces sheet retained base
  obtain ⟨k, n, hkl, -, hn, hcalled, houter⟩ := h.exists_outermost
  have hk : ∀ f ∈ (selection sheet retained base).faces, f.1 <+: l ↔ f.1 = k := by
    intro f hf
    obtain ⟨hm, hface, hf'⟩ := (hfaces.mem_iff f.1 f.2).1 hf
    refine ⟨fun hfl => ?_, fun h => h ▸ hkl⟩
    by_contra hne
    rcases List.prefix_or_prefix_of_prefix hfl hkl with hfk | hkf
    · exact houter ⟨f.1, f.2, hfk, hne, hm, hface⟩
    · exact hf' ⟨k, n, hkf, Ne.symm hne, hn, hcalled⟩
  rw [countP_isPrefixOf hfaces hk,
    if_pos ((mem_addresses_iff_of_isSurvey hfaces hn).2 ⟨hcalled, houter⟩)]

/-- No font face is written with a rule that stands in none. -/
theorem countP_faces_of_not_beneath (hr : sheet.at? l = some (.rule r))
    (h : ¬Beneath sheet.at? "font-face" l) :
    (selection sheet retained base).faces.countP (fun f => f.1.isPrefixOf l) = 0 := by
  refine List.countP_eq_zero.2 fun f hf hprefix => ?_
  obtain ⟨hm, hface, -⟩ := ((isSurvey_faces sheet retained base).mem_iff f.1 f.2).1 hf
  by_cases heq : f.1 = l
  · rw [heq, hr] at hm
    rw [← Option.some.inj hm] at hface
    exact Bool.false_ne_true hface
  · exact h ⟨f.1, f.2, List.isPrefixOf_iff_prefix.1 hprefix, heq, hm, hface⟩

/-- A rule in a font face is written with the outermost one. -/
theorem timesWritten_of_beneath (hr : sheet.at? l = some (.rule r))
    (h : Beneath sheet.at? "font-face" l) :
    (selection sheet retained base).timesWritten l = 1 := by
  rw [Selection.timesWritten, List.countP_append, List.countP_append, countP_faces_of_beneath h,
    countP_rules_of_beneath (isSurvey_bases sheet retained base) hr h,
    countP_rules_of_beneath (isSurvey_body sheet retained base) hr h]

/-- Another rule is written as a rule of the base class and as one that mentions a kept class. -/
theorem timesWritten_of_not_beneath (hr : sheet.at? l = some (.rule r))
    (h : ¬Beneath sheet.at? "font-face" l) :
    (selection sheet retained base).timesWritten l =
      (if r.selector = selectorOfClass base then 1 else 0) +
        if Mentions retained.keys r.selector then 1 else 0 := by
  rw [Selection.timesWritten, List.countP_append, List.countP_append,
    countP_faces_of_not_beneath hr h,
    countP_rules_of_not_beneath (isSurvey_bases sheet retained base) hr h,
    countP_rules_of_not_beneath (isSurvey_body sheet retained base) hr h, Nat.zero_add]

end

/-- **No rule is written twice** exactly if the selector of the base class mentions no kept class,
or no rule outside the font faces has this selector. A rule in a font face is written once, another
one as a rule of the base class and as one that mentions a kept class. -/
theorem timesWritten_le_one_iff (sheet : Sheet) (retained : Retained) (base : String) :
    let s := selection sheet retained base
    prunedCss sheet retained base = s.text ∧
      (∀ l r, sheet.at? l = some (.rule r) →
        (Beneath sheet.at? "font-face" l → s.timesWritten l = 1) ∧
        (¬Beneath sheet.at? "font-face" l → s.timesWritten l =
          (if r.selector = selectorOfClass base then 1 else 0) +
            if Mentions retained.keys r.selector then 1 else 0)) ∧
      ((∀ l r, sheet.at? l = some (.rule r) → s.timesWritten l ≤ 1) ↔
        (Mentions retained.keys (selectorOfClass base) → ∀ l r, sheet.at? l = some (.rule r) →
          ¬Beneath sheet.at? "font-face" l → r.selector ≠ selectorOfClass base)) := by
  intro s
  have hbeneath : ∀ l r, sheet.at? l = some (.rule r) → Beneath sheet.at? "font-face" l →
      s.timesWritten l = 1 := fun l r => timesWritten_of_beneath
  have hnot : ∀ l r, sheet.at? l = some (.rule r) → ¬Beneath sheet.at? "font-face" l →
      s.timesWritten l = (if r.selector = selectorOfClass base then 1 else 0) +
        if Mentions retained.keys r.selector then 1 else 0 :=
    fun l r => timesWritten_of_not_beneath
  refine ⟨prunedCss_eq_text sheet retained base,
    fun l r hr => ⟨hbeneath l r hr, hnot l r hr⟩, fun h hmentions l r hr hl hbase => ?_,
    fun h l r hr => ?_⟩
  · have htwice := h l r hr
    rw [hnot l r hr hl, hbase, if_pos rfl, if_pos hmentions] at htwice
    omega
  · by_cases hl : Beneath sheet.at? "font-face" l
    · exact (hbeneath l r hr hl).le
    · rw [hnot l r hr hl]
      by_cases hbase : r.selector = selectorOfClass base
      · have hnone : ¬Mentions retained.keys r.selector := fun hmentions =>
          h (hbase ▸ hmentions) l r hr hl hbase
        rw [if_pos hbase, if_neg hnone]
      · rw [if_neg hbase]
        split <;> omega

/-- A stylesheet whose base class has a glyph itself. -/
def glyphBaseCss : String := ".icon\x7btop:0\x7d .icon:before\x7bcontent:\"\\e600\"\x7d"

/-- The rule of the base class. -/
def glyphBaseRule : Rule := ⟨".icon", [⟨"top", "0", false⟩], 1, ".icon\x7btop:0\x7d"⟩

/-- The selection for the base class as the one class in use. -/
def glyphBaseSelection (sheet : Sheet) : Selection :=
  let used := NameSet.ofList ["icon"]
  selection sheet (reconcile used (buildIndex sheet used)) "icon"

theorem exists_parse_glyphBaseCss : ∃ sheet, Sheet.parse glyphBaseCss = .ok sheet ∧
    sheet.at? [0] = some (.rule glyphBaseRule) ∧
    (reconcile (NameSet.ofList ["icon"]) (buildIndex sheet (NameSet.ofList ["icon"]))).keys =
      ["icon"] ∧
    (glyphBaseSelection sheet).timesWritten [0] = 2 := by
  have hread : (Sheet.parse glyphBaseCss).toOption.map (fun sheet =>
      ((sheet.at? [0]).bind Node.rule?,
        (reconcile (NameSet.ofList ["icon"]) (buildIndex sheet (NameSet.ofList ["icon"]))).keys,
        (glyphBaseSelection sheet).timesWritten [0])) =
      some (some glyphBaseRule, ["icon"], 2) := by
    decide +kernel
  cases hparse : Sheet.parse glyphBaseCss with
  | error e => simp [hparse, Except.toOption] at hread
  | ok sheet =>
    rw [hparse] at hread
    obtain ⟨hrule, htail⟩ := Prod.mk.inj (Option.some.inj hread)
    obtain ⟨hkeys, htwice⟩ := Prod.mk.inj htail
    obtain ⟨n, hn, hr⟩ := Option.bind_eq_some_iff.1 hrule
    exact ⟨sheet, rfl, hn.trans (congrArg some (Node.rule?_eq_some_iff.1 hr)), hkeys, htwice⟩

/-- The rule of the base class is written in front, and again behind. -/
theorem timesWritten_le_one_iff_glyphBaseCss :
    ∃ sheet, Sheet.parse glyphBaseCss = .ok sheet ∧
      sheet.at? [0] = some (.rule glyphBaseRule) ∧ ¬Beneath sheet.at? "font-face" [0] ∧
      (glyphBaseSelection sheet).timesWritten [0] = 2 := by
  obtain ⟨sheet, hparse, hrule, hkeys, -⟩ := exists_parse_glyphBaseCss
  have hbeneath := sheet.not_beneath_singleton "font-face" 0
  refine ⟨sheet, hparse, hrule, hbeneath, ?_⟩
  have hlaw := timesWritten_le_one_iff sheet
    (reconcile (NameSet.ofList ["icon"]) (buildIndex sheet (NameSet.ofList ["icon"]))) "icon"
  have htimes := (hlaw.2.1 [0] glyphBaseRule hrule).2 hbeneath
  rw [hkeys] at htimes
  exact htimes.trans (by decide)

/-- **A rule can be written twice.** -/
theorem not_forall_timesWritten_le_one :
    ¬∀ css sheet, Sheet.parse css = .ok sheet → ∀ (used : NameSet) (base : String),
      ∀ l r, sheet.at? l = some (.rule r) →
        (selection sheet (reconcile used (buildIndex sheet used)) base).timesWritten l ≤ 1 := by
  intro h
  obtain ⟨sheet, hparse, hrule, -, htwice⟩ := exists_parse_glyphBaseCss
  have honce : (glyphBaseSelection sheet).timesWritten [0] ≤ 1 :=
    h _ sheet hparse (NameSet.ofList ["icon"]) "icon" [0] glyphBaseRule hrule
  rw [htwice] at honce
  omega

end GlyphTrim.Glyph
