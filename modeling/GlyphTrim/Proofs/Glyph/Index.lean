import GlyphTrim.Glyph.Index
import GlyphTrim.Proofs.Name.Map
import Mathlib.Data.List.Induction

/-!
# What the index of a stylesheet holds

The index is built rule by rule, and what it finds for a class is told by the rules alone: the
escape of the last rule that declares the glyph of the class (`find?_reconcile`). Classes that are
not in use are not in it.
-/

namespace GlyphTrim.Glyph

open Css

/-! ## The last of its kind -/

/-- `a` is the last element of the list with a property. -/
def IsLast {α : Type} (p : α → Prop) (a : α) (l : List α) : Prop :=
  ∃ before after, l = before ++ a :: after ∧ p a ∧ ∀ b ∈ after, ¬p b

theorem isLast_append_singleton {α : Type} {p : α → Prop} {a x : α} {l : List α} :
    IsLast p a (l ++ [x]) ↔ p x ∧ a = x ∨ ¬p x ∧ IsLast p a l := by
  constructor
  · rintro ⟨before, after, h, ha, hafter⟩
    rcases after.eq_nil_or_concat with rfl | ⟨after, y, rfl⟩
    · obtain ⟨rfl, hx⟩ := List.append_inj' h rfl
      obtain rfl : x = a := by simpa using hx
      exact .inl ⟨ha, rfl⟩
    · have h' : l ++ [x] = (before ++ a :: after) ++ [y] := by simpa using h
      obtain ⟨rfl, hx⟩ := List.append_inj' h' rfl
      obtain rfl : x = y := by simpa using hx
      exact .inr ⟨hafter x (by simp), before, after, rfl, ha, fun b hb => hafter b (by simp [hb])⟩
  · rintro (⟨hx, rfl⟩ | ⟨hx, before, after, rfl, ha, hafter⟩)
    · exact ⟨l, [], rfl, hx, by simp⟩
    · refine ⟨before, after ++ [x], by simp, ha, fun b hb => ?_⟩
      rcases List.mem_append.1 hb with hb | hb
      · exact hafter b hb
      · obtain rfl := List.mem_singleton.1 hb
        exact hx

/-- The last value of a partial function is its value at the last place where it has one. -/
theorem getLast?_filterMap_eq_some_iff {α β : Type} {f : α → Option β} {l : List α} {b : β} :
    (l.filterMap f).getLast? = some b ↔
      ∃ a, IsLast (fun a => ∃ b, f a = some b) a l ∧ f a = some b := by
  induction l using List.reverseRecOn with
  | nil => simp [IsLast]
  | append_singleton l x ih =>
    simp only [isLast_append_singleton]
    cases hx : f x with
    | none => simpa [hx] using ih
    | some c =>
      simp only [List.filterMap_append, List.filterMap_cons, hx, List.filterMap_nil,
        List.getLast?_concat]
      constructor
      · intro h
        exact ⟨x, .inl ⟨⟨c, rfl⟩, rfl⟩, hx.trans h⟩
      · rintro ⟨a, ⟨-, rfl⟩ | ⟨hnone, -⟩, ha⟩
        · exact hx.symm.trans ha
        · exact absurd ⟨c, rfl⟩ hnone

/-! ## The selector of a glyph -/

/-- The selector of the rules that declare the glyph of a class. -/
def glyphSelector (c : String) : String := "." ++ c ++ ":before"

theorem toList_glyphSelector (c : String) :
    (glyphSelector c).toList = '.' :: (c.toList ++ glyphEnding) := by
  rw [glyphSelector, String.toList_append, String.toList_append, List.append_assoc]
  rfl

/-- **The selectors of glyphs** are told apart exactly; a class without a name has none. -/
theorem classOfSelector_eq_some_iff {s c : String} :
    classOfSelector s = some c ↔ c ≠ "" ∧ s = glyphSelector c := by
  have hlen : ∀ cs : List Char, (cs ++ glyphEnding).length - glyphEnding.length = cs.length := by
    intro cs
    rw [List.length_append]
    omega
  constructor
  · intro h
    unfold classOfSelector at h
    split at h
    · rename_i rest hs
      split at h
      · rename_i hcond
        rw [Bool.and_eq_true, List.isSuffixOf_iff_suffix, decide_eq_true_eq] at hcond
        obtain ⟨⟨cs, rfl⟩, hlt⟩ := hcond
        rw [hlen, List.take_left] at h
        obtain rfl := Option.some.inj h
        constructor
        · rintro hc
          obtain rfl : cs = [] := by simpa using congrArg String.toList hc
          exact absurd hlt (Nat.lt_irrefl _)
        · rw [← String.toList_inj, toList_glyphSelector, String.toList_ofList]
          exact hs
      · exact absurd h (by simp)
    · exact absurd h (by simp)
  · rintro ⟨hc, rfl⟩
    have hcs : c.toList ≠ [] := fun h => hc (by simpa using h)
    have hlt : glyphEnding.length < (c.toList ++ glyphEnding).length := by
      rw [List.length_append]
      have := List.length_pos_iff.2 hcs
      omega
    have hsuffix : glyphEnding.isSuffixOf (c.toList ++ glyphEnding) = true :=
      List.isSuffixOf_iff_suffix.2 (List.suffix_append _ _)
    rw [classOfSelector, toList_glyphSelector]
    simp only [hsuffix, hlt, decide_true, Bool.and_self, if_true]
    rw [hlen, List.take_left, String.ofList_toList]

/-! ## Rules -/

/-- The escape that a rule gives to a class. -/
def glyphOf (c : String) (r : Rule) : Option String :=
  if c ∈ r.selectors.filterMap classOfSelector then literalOfRule r else none

theorem find?_foldl_insert (names : List String) (e : Entry) (index : Index) (c : String) :
    (names.foldl (fun index c => index.insert c e) index).find? c =
      if c ∈ names then some e else index.find? c := by
  induction names generalizing index with
  | nil => simp
  | cons d names ih =>
    rw [List.foldl_cons, ih, NameMap.find?_insert]
    by_cases hnames : c ∈ names
    · simp [hnames]
    · simp [hnames]

/-- The glyph that a rule gives to a class. -/
def entryOf (c : String) (r : Rule) : Option Entry := (glyphOf c r).map (⟨·, r.line⟩)

/-- One more rule counts for the classes in use that it gives a glyph to. -/
theorem find?_addRule (used : NameSet) (index : Index) (r : Rule) (c : String) :
    (addRule used index r).find? c =
      (if used.contains c then entryOf c r else none).or (index.find? c) := by
  rw [addRule, entryOf, glyphOf]
  cases hl : literalOfRule r with
  | none => simp
  | some literal =>
    simp only [find?_foldl_insert, classesOfRule, List.mem_filter]
    by_cases hmem : c ∈ r.selectors.filterMap classOfSelector
    · cases hc : used.contains c <;> simp [hmem]
    · simp [hmem]

/-- The glyph of the last rule that gives one to a class. -/
def lastEntry (c : String) (rules : List Rule) : Option Entry :=
  (rules.filterMap (entryOf c)).getLast?

/-- The escape of the last rule that gives one to a class. -/
def lastGlyph (c : String) (rules : List Rule) : Option String :=
  (rules.filterMap (glyphOf c)).getLast?

theorem map_literal_lastEntry (c : String) (rules : List Rule) :
    (lastEntry c rules).map (·.literal) = lastGlyph c rules := by
  rw [lastEntry, lastGlyph, ← List.getLast?_map, List.map_filterMap]
  refine congrArg List.getLast? (List.filterMap_congr fun r _ => ?_)
  rw [entryOf, Option.map_map]
  exact Option.map_id_apply

theorem find?_foldl_addRule (used : NameSet) (rules : List Rule) (c : String) :
    (rules.foldl (addRule used) NameMap.empty).find? c =
      if used.contains c then lastEntry c rules else none := by
  induction rules using List.reverseRecOn with
  | nil => simp [lastEntry]
  | append_singleton rules r ih =>
    rw [List.foldl_append, List.foldl_cons, List.foldl_nil, find?_addRule, ih, lastEntry,
      lastEntry, List.filterMap_append]
    cases hr : entryOf c r with
    | none => cases hc : used.contains c <;> simp [hr]
    | some e => cases hc : used.contains c <;> simp [hr]

/-- **What an index holds for a class in use** is the glyph of the last rule that gives it one. -/
theorem find?_buildIndex (sheet : Sheet) (used : NameSet) (c : String) :
    (buildIndex sheet used).find? c =
      if used.contains c then lastEntry c sheet.rules else none :=
  find?_foldl_addRule used sheet.rules c

/-- The escape that the index of a stylesheet holds for a class. -/
def indexed (sheet : Sheet) (used : NameSet) (c : String) : Option String :=
  ((buildIndex sheet used).find? c).map (·.literal)

theorem indexed_eq (sheet : Sheet) (used : NameSet) (c : String) :
    indexed sheet used c = if used.contains c then lastGlyph c sheet.rules else none := by
  rw [indexed, find?_buildIndex, ← map_literal_lastEntry]
  split <;> rfl

/-- **What is kept for a class in use** is the escape of the last rule that gives it one. -/
theorem find?_reconcile (used : NameSet) (sheet : Sheet) (c : String) :
    (reconcile used (buildIndex sheet used)).find? c =
      if used.contains c then lastGlyph c sheet.rules else none := by
  rw [reconcile, NameMap.find?_map, NameMap.find?_filter, find?_buildIndex,
    ← map_literal_lastEntry]
  cases used.contains c with
  | false => rfl
  | true => cases lastEntry c sheet.rules <;> rfl

/-- **Indexing and restricting commute**: what is kept of an index that was made for other classes
is the index for the classes in both sets, with the same lines. What an index holds for a class is
told by the rules, and by whether that class is in use. -/
theorem reconcile_buildIndex_eq_inter (sheet : Sheet) (used wide : NameSet) :
    reconcile used (buildIndex sheet wide) =
        (buildIndex sheet (used.inter wide)).map (·.literal) ∧
      ((buildIndex sheet wide).filter fun c _ => used.contains c) =
        buildIndex sheet (used.inter wide) ∧
      ∀ c, (buildIndex sheet wide).find? c =
        if wide.contains c then lastEntry c sheet.rules else none := by
  have hfilter : ((buildIndex sheet wide).filter fun c _ => used.contains c) =
      buildIndex sheet (used.inter wide) := by
    apply NameMap.ext_find?
    intro c
    rw [NameMap.find?_filter, find?_buildIndex, find?_buildIndex, NameSet.contains_inter]
    cases used.contains c with
    | false => simp
    | true => cases wide.contains c <;> cases lastEntry c sheet.rules <;> rfl
  exact ⟨by rw [reconcile, hfilter], hfilter, find?_buildIndex sheet wide⟩

/-! ## Declared glyphs -/

/-- A declaration whose value is a quoted escape. -/
def HoldsEscape (d : Declaration) : Prop := ∃ literal, quotedEscape d.value = some literal

/-- A rule that declares the glyph of a class. -/
def Declares (c : String) (r : Rule) : Prop :=
  glyphSelector c ∈ r.selectors ∧ ∃ d ∈ r.declarationsOf "content", HoldsEscape d

/-- The rules give a class an escape: it stands in the last rule that declares the glyph of the
class, and there in the last declaration of the content that holds one. -/
def GivesEscape (rules : List Rule) (c literal : String) : Prop :=
  ∃ r, IsLast (Declares c) r rules ∧
    ∃ d, IsLast HoldsEscape d (r.declarationsOf "content") ∧ quotedEscape d.value = some literal

theorem IsLast.mem {α : Type} {p : α → Prop} {a : α} {l : List α} (h : IsLast p a l) :
    a ∈ l ∧ p a := by
  obtain ⟨before, after, rfl, ha, -⟩ := h
  exact ⟨by simp, ha⟩

theorem exists_isLast {α : Type} {p : α → Prop} {a : α} {l : List α} (ha : a ∈ l) (hp : p a) :
    ∃ b, IsLast p b l := by
  induction l using List.reverseRecOn with
  | nil => exact absurd ha (by simp)
  | append_singleton l x ih =>
    simp only [isLast_append_singleton]
    by_cases hx : p x
    · exact ⟨x, .inl ⟨hx, rfl⟩⟩
    · have hmem : a ∈ l := by
        rcases List.mem_append.1 ha with ha | ha
        · exact ha
        · obtain rfl := List.mem_singleton.1 ha
          exact absurd hp hx
      obtain ⟨b, hb⟩ := ih hmem
      exact ⟨b, .inr ⟨hx, hb⟩⟩

theorem literalOfRule_eq_some_iff {r : Rule} {literal : String} :
    literalOfRule r = some literal ↔
      ∃ d, IsLast HoldsEscape d (r.declarationsOf "content") ∧
        quotedEscape d.value = some literal :=
  getLast?_filterMap_eq_some_iff

theorem glyphOf_eq_some_iff {c : String} (hc : c ≠ "") {r : Rule} {literal : String} :
    glyphOf c r = some literal ↔
      glyphSelector c ∈ r.selectors ∧ literalOfRule r = some literal := by
  have hmem : c ∈ r.selectors.filterMap classOfSelector ↔ glyphSelector c ∈ r.selectors := by
    rw [List.mem_filterMap]
    constructor
    · rintro ⟨s, hs, hsc⟩
      obtain ⟨-, rfl⟩ := classOfSelector_eq_some_iff.1 hsc
      exact hs
    · intro hs
      exact ⟨_, hs, classOfSelector_eq_some_iff.2 ⟨hc, rfl⟩⟩
  rw [glyphOf, ← hmem]
  by_cases h : c ∈ r.selectors.filterMap classOfSelector <;> simp [h]

theorem exists_glyphOf_iff {c : String} (hc : c ≠ "") {r : Rule} :
    (∃ literal, glyphOf c r = some literal) ↔ Declares c r := by
  simp only [glyphOf_eq_some_iff hc, literalOfRule_eq_some_iff]
  constructor
  · rintro ⟨literal, hs, d, hd, -⟩
    exact ⟨hs, d, hd.mem⟩
  · rintro ⟨hs, d, hd, hescape⟩
    obtain ⟨d', hlast⟩ := exists_isLast hd hescape
    obtain ⟨literal, hliteral⟩ := hlast.mem.2
    exact ⟨literal, hs, d', hlast, hliteral⟩

/-- **The escape of a class**, from the rules. -/
theorem lastGlyph_eq_some_iff {c : String} (hc : c ≠ "") {rules : List Rule} {literal : String} :
    lastGlyph c rules = some literal ↔ GivesEscape rules c literal := by
  have hdeclares : (fun r => ∃ literal, glyphOf c r = some literal) = Declares c := by
    funext r
    exact propext (exists_glyphOf_iff hc)
  rw [lastGlyph, getLast?_filterMap_eq_some_iff, hdeclares]
  constructor
  · rintro ⟨r, hr, hliteral⟩
    exact ⟨r, hr, literalOfRule_eq_some_iff.1 ((glyphOf_eq_some_iff hc).1 hliteral).2⟩
  · rintro ⟨r, hr, hliteral⟩
    refine ⟨r, hr, (glyphOf_eq_some_iff hc).2 ⟨hr.mem.2.1, ?_⟩⟩
    exact literalOfRule_eq_some_iff.2 hliteral

end GlyphTrim.Glyph
