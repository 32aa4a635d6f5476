import GlyphTrim.Proofs.Glyph.Index

/-!
# Declarations of equal weight

For a browser the rules of a class `c` with the selector `.c:before` all weigh the same, so among
the declarations of the content the last important one counts, and the last one if none is
important. The index goes by the order alone: it holds the last escape (`lastGlyph_eq_getLast?`).
The two agree as long as the last important declaration gives the last escape
(`find?_buildIndex_eq_cascade_iff`), and not in general (`not_forall_find?_buildIndex_eq_cascade`).
-/

namespace GlyphTrim.Glyph

open Css

/-! ## The declarations of a class -/

/-- The declarations of the content in the rules for the glyph of a class, in order. -/
def contentOf (c : String) (rules : List Rule) : List Declaration :=
  (rules.filter (glyphSelector c ∈ ·.selectors)).flatMap (·.declarationsOf "content")

/-- The escape of a declaration, if there is one. -/
def escapeOf (d : Option Declaration) : Option String := d.bind (quotedEscape ·.value)

/-- The declaration that counts among those of equal weight: the last important one, else the last
one. -/
def cascade (ds : List Declaration) : Option Declaration :=
  (ds.filter (·.important)).getLast?.or ds.getLast?

/-- **The escape that counts** is the last one that any declaration of the class holds. -/
theorem lastGlyph_eq_getLast? {c : String} (hc : c ≠ "") (rules : List Rule) :
    lastGlyph c rules = ((contentOf c rules).filterMap (quotedEscape ·.value)).getLast? := by
  have hrule : ∀ r : Rule, glyphOf c r =
      ((contentOf c [r]).filterMap (quotedEscape ·.value)).getLast? := by
    intro r
    ext literal
    rw [glyphOf_eq_some_iff hc, contentOf, literalOfRule]
    by_cases hr : glyphSelector c ∈ r.selectors <;> simp [hr]
  have hrules : (contentOf c rules).filterMap (quotedEscape ·.value) =
      rules.flatMap fun r => (contentOf c [r]).filterMap (quotedEscape ·.value) := by
    induction rules with
    | nil => rfl
    | cons r rules ih =>
      have hcons : contentOf c (r :: rules) = contentOf c [r] ++ contentOf c rules := by
        rw [contentOf, ← List.singleton_append, List.filter_append, List.flatMap_append]
        rfl
      rw [hcons, List.filterMap_append, ih, List.flatMap_cons]
  rw [lastGlyph, hrules, List.getLast?_flatMap, List.getLast?_filterMap, funext hrule]

/-- Where all declarations hold escapes, the last declaration counts. -/
theorem getLast?_filterMap_quotedEscape {ds : List Declaration} (h : ∀ d ∈ ds, HoldsEscape d) :
    (ds.filterMap (quotedEscape ·.value)).getLast? = escapeOf ds.getLast? := by
  rcases ds.eq_nil_or_concat with rfl | ⟨ds, d, rfl⟩
  · rfl
  · obtain ⟨literal, hliteral⟩ := h d (by simp)
    rw [List.concat_eq_append, List.filterMap_append, List.getLast?_concat, escapeOf, Option.bind_some, hliteral,
      List.filterMap_cons, hliteral, List.filterMap_nil, List.getLast?_concat]

/-! ## The index and the cascade -/

variable {sheet : Sheet} {used : NameSet} {c : String}

theorem cascade_eq_of_filter_eq_nil {ds : List Declaration} (h : ds.filter (·.important) = []) :
    cascade ds = ds.getLast? := by
  rw [cascade, h]
  rfl

theorem cascade_eq_of_getLast?_filter {ds : List Declaration} {d : Declaration}
    (h : (ds.filter (·.important)).getLast? = some d) : cascade ds = some d := by
  rw [cascade, h]
  rfl

/-- If all declarations of a class in use hold escapes, the index holds the escape of the last. -/
theorem indexed_eq_getLast? (hc : c ≠ "") (hused : used.contains c = true)
    (hescapes : ∀ d ∈ contentOf c sheet.rules, HoldsEscape d) :
    indexed sheet used c = escapeOf (contentOf c sheet.rules).getLast? := by
  rw [indexed_eq, if_pos hused, lastGlyph_eq_getLast? hc,
    getLast?_filterMap_quotedEscape hescapes]

/-- **The index goes by the order of the declarations.** If all declarations of a class in use hold
escapes, the index holds the escape of the last one. This is the one that counts in a browser
exactly if no declaration is important, or the last important one gives the same escape. -/
theorem find?_buildIndex_eq_cascade_iff (hc : c ≠ "") (hused : used.contains c = true)
    (hescapes : ∀ d ∈ contentOf c sheet.rules, HoldsEscape d) :
    indexed sheet used c = escapeOf (contentOf c sheet.rules).getLast? ∧
      (indexed sheet used c = escapeOf (cascade (contentOf c sheet.rules)) ↔
        ∀ d, ((contentOf c sheet.rules).filter (·.important)).getLast? = some d →
          quotedEscape d.value = escapeOf (contentOf c sheet.rules).getLast?) := by
  have hlast := indexed_eq_getLast? hc hused hescapes
  refine ⟨hlast, ?_⟩
  rw [hlast]
  cases himportant : ((contentOf c sheet.rules).filter (·.important)).getLast? with
  | none =>
    rw [cascade_eq_of_filter_eq_nil (List.getLast?_eq_none_iff.1 himportant)]
    simp
  | some d =>
    rw [cascade_eq_of_getLast?_filter himportant]
    constructor
    · rintro h d' ⟨⟩
      exact h.symm
    · intro h
      exact (h d rfl).symm

/-! ## A class with two glyphs -/

/-- What makes a declaration important, or nothing. -/
def importance (important : Bool) : String := if important then "!important" else ""

/-- A stylesheet with two glyphs for a class, each of them important or not. -/
def twiceCss (first second : Bool) : String :=
  ".icon-a:before\x7bcontent:\"\\e601\"" ++ importance first ++
    "\x7d .icon-a:before\x7bcontent:\"\\e602\"" ++ importance second ++ "\x7d"

/-- The declarations of the class. -/
def twiceContent (first second : Bool) : List Declaration :=
  [⟨"content", "\"\\e601\"", first⟩, ⟨"content", "\"\\e602\"", second⟩]

/-- Whether a statement is a rule. -/
def isRule : Node → Bool
  | .rule _ => true
  | .atRule _ _ => false

theorem exists_of_isRule {n : Node} (h : isRule n = true) : ∃ r, n = .rule r := by
  cases n with
  | rule r => exact ⟨r, rfl⟩
  | atRule head children => exact absurd h Bool.false_ne_true

/-- The stylesheet consists of rules, with the declarations as they are written. -/
theorem exists_parse_twiceCss (first second : Bool) :
    ∃ sheet, Sheet.parse (twiceCss first second) = .ok sheet ∧
      (∀ n ∈ sheet.nodes, ∃ r, n = .rule r) ∧
      contentOf "icon-a" sheet.rules = twiceContent first second := by
  have hread : (Sheet.parse (twiceCss first second)).toOption.map (fun sheet =>
      (sheet.nodes.all isRule, contentOf "icon-a" sheet.rules)) =
      some (true, twiceContent first second) := by
    revert first second
    decide +kernel
  cases hparse : Sheet.parse (twiceCss first second) with
  | error e => simp [hparse, Except.toOption] at hread
  | ok sheet =>
    rw [hparse] at hread
    obtain ⟨hrules, hcontent⟩ := Prod.mk.inj (Option.some.inj hread)
    exact ⟨sheet, rfl, fun n hn => exists_of_isRule (List.all_eq_true.1 hrules n hn), hcontent⟩

theorem holdsEscape_of_mem_twiceContent {first second : Bool} :
    ∀ d ∈ twiceContent first second, HoldsEscape d := by
  have hquoted : quotedEscape "\"\\e601\"" = some "\\e601" ∧
      quotedEscape "\"\\e602\"" = some "\\e602" := by
    decide
  intro d hd
  rcases List.mem_pair.1 hd with rfl | rfl
  · exact ⟨_, hquoted.1⟩
  · exact ⟨_, hquoted.2⟩

/-- With the important declaration last, the index agrees with a browser. -/
theorem find?_buildIndex_eq_cascade_twiceCss :
    ∃ sheet, Sheet.parse (twiceCss false true) = .ok sheet ∧
      (∀ d ∈ contentOf "icon-a" sheet.rules, HoldsEscape d) ∧
      indexed sheet (NameSet.ofList ["icon-a"]) "icon-a" = some "\\e602" ∧
      indexed sheet (NameSet.ofList ["icon-a"]) "icon-a" =
        escapeOf (cascade (contentOf "icon-a" sheet.rules)) := by
  obtain ⟨sheet, hparse, -, hcontent⟩ := exists_parse_twiceCss false true
  have hescapes : ∀ d ∈ contentOf "icon-a" sheet.rules, HoldsEscape d :=
    hcontent ▸ holdsEscape_of_mem_twiceContent
  obtain ⟨hlast, hcascade⟩ := find?_buildIndex_eq_cascade_iff (by decide)
    ((NameSet.contains_ofList ["icon-a"] "icon-a").2 (List.mem_singleton_self _)) hescapes
  refine ⟨sheet, hparse, hescapes, ?_, hcascade.2 ?_⟩
  · rw [hlast, hcontent]
    decide
  · rw [hcontent]
    decide

/-- **The index does not always agree with a browser**: an important declaration loses to a later
one. -/
theorem not_forall_find?_buildIndex_eq_cascade :
    ¬∀ (css : String) (sheet : Sheet), Sheet.parse css = .ok sheet →
      (∀ n ∈ sheet.nodes, ∃ r, n = .rule r) → ∀ (used : NameSet) (c : String),
        used.contains c = true → (∀ d ∈ contentOf c sheet.rules, HoldsEscape d) →
          indexed sheet used c = escapeOf (cascade (contentOf c sheet.rules)) := by
  intro h
  obtain ⟨sheet, hparse, hrules, hcontent⟩ := exists_parse_twiceCss true false
  have hused : (NameSet.ofList ["icon-a"]).contains "icon-a" = true :=
    (NameSet.contains_ofList _ _).2 (List.mem_singleton_self _)
  have hescapes : ∀ d ∈ contentOf "icon-a" sheet.rules, HoldsEscape d :=
    hcontent ▸ holdsEscape_of_mem_twiceContent
  have hcascade := h _ sheet hparse hrules _ _ hused hescapes
  rw [indexed_eq_getLast? (by decide) hused hescapes, hcontent] at hcascade
  exact absurd hcascade (by decide)

end GlyphTrim.Glyph
