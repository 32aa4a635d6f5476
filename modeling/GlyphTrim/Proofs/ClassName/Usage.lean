import GlyphTrim.Proofs.ClassName.Resolution
import GlyphTrim.Proofs.Name.Map
import GlyphTrim.Proofs.Tsx.Pieces

/-!
# The classes and the gaps of a module

Every attribute `className` of a module counts, however deep it stands, and nothing else does. The
classes in use are what the values of these attributes give, and the gaps are theirs in the order
of reading, so those of an attribute stand in front of those of the attributes inside its value
(`FileUsage.exists_ofText_eq_ok`).
-/

namespace GlyphTrim

open Tsx

namespace ClassName

open Text

/-- The value of an attribute gives a class: it is one of the tokens of its text, or of the values
that its expression stands for. -/
def GivesClass : AttributeValue → String → Prop
  | .text s, c => c ∈ classTokens s
  | .expression e, c => c ∈ (resolve e).values
  | .absent, _ | .element _, _ => False

/-- What is unknown in the value of an attribute. -/
def unknownsOf : AttributeValue → List Unknown
  | .expression e => (resolve e).unknowns
  | .absent | .text _ | .element _ => []

/-- The attribute is a plain `className`. -/
def IsClassName (a : Attribute) : Prop := a.name = .plain "className"

instance (a : Attribute) : Decidable (IsClassName a) :=
  inferInstanceAs (Decidable (a.name = .plain "className"))

theorem resolveAttribute_of_not_isClassName {a : Attribute} (h : ¬ IsClassName a) :
    resolveAttribute a = .known [] := by
  unfold resolveAttribute
  split
  · exact absurd ‹_› h
  · exact absurd ‹_› h
  · rfl

theorem mem_values_resolveAttribute_iff {a : Attribute} {c : String} :
    c ∈ (resolveAttribute a).values ↔ IsClassName a ∧ GivesClass a.value c := by
  by_cases h : IsClassName a
  · obtain ⟨name, v⟩ := a
    obtain rfl : name = .plain "className" := h
    cases v <;> simp [resolveAttribute, GivesClass, IsClassName]
  · simp [resolveAttribute_of_not_isClassName h, h]

theorem unknowns_resolveAttribute (a : Attribute) :
    (resolveAttribute a).unknowns = if IsClassName a then unknownsOf a.value else [] := by
  by_cases h : IsClassName a
  · obtain ⟨name, v⟩ := a
    obtain rfl : name = .plain "className" := h
    cases v <;> simp [resolveAttribute, unknownsOf, IsClassName]
  · rw [resolveAttribute_of_not_isClassName h, if_neg h]
    rfl

/-- What is unknown in attributes is what is unknown in those among them that count. -/
theorem unknowns_resolveAll_resolveAttribute (as : List Attribute) :
    (resolveAll resolveAttribute as).unknowns =
      (as.filter fun a => IsClassName a).flatMap fun a => unknownsOf a.value := by
  rw [unknowns_resolveAll]
  induction as with
  | nil => rfl
  | cons a as ih =>
    rw [List.flatMap_cons, ih, unknowns_resolveAttribute, List.filter_cons]
    by_cases h : IsClassName a <;> simp [h]

end ClassName

namespace FileUsage

open ClassName Text

variable {file code : String} {m : Module}

/-- **The usage of a module:** the classes in use are those that the value of some attribute
`className` gives, wherever it stands. The gaps are those of these attributes, of which each is
there once and none stands behind one that it encloses. -/
theorem exists_ofText_eq_ok (h : readModule file (dropMark code.toList) = .ok m) :
    ∃ usage, ofText file code = .ok usage ∧
      (∀ c, usage.classes.contains c = true ↔
        ∃ l a, (Piece.module m).attributeAt? l = some a ∧ IsClassName a ∧
          GivesClass a.value c) ∧
      ∃ found : List (Address × Attribute),
        found.Pairwise (fun f g => f.1 < g.1 ∧ ¬ g.1 <+: f.1) ∧
        (∀ l a, (l, a) ∈ found ↔
          (Piece.module m).attributeAt? l = some a ∧ IsClassName a) ∧
        usage.gaps = found.flatMap fun f =>
          (unknownsOf f.2.value).map (gapOf file (dropMark code.toList)) := by
  obtain ⟨found, hfound, hattributes⟩ := (Piece.module m).exists_survey
  have hall : Node.attributesOfAll m.items = found.map (·.2) := hattributes
  refine ⟨⟨NameSet.ofList (usage m).values,
    (usage m).unknowns.map (gapOf file (dropMark code.toList))⟩, ?_, fun c => ?_,
    found.filter fun f => IsClassName f.2, ?_, fun l a => ?_, ?_⟩
  · rw [ofText, h]
    rfl
  · rw [NameSet.contains_ofList, usage, values_resolveAll, hall]
    simp only [List.mem_flatMap, List.mem_map, mem_values_resolveAttribute_iff]
    constructor
    · rintro ⟨-, ⟨⟨l, a⟩, hmem, rfl⟩, hname, hc⟩
      exact ⟨l, a, (hfound.mem_iff l a).1 hmem, hname, hc⟩
    · rintro ⟨l, a, ha, hname, hc⟩
      exact ⟨a, ⟨(l, a), (hfound.mem_iff l a).2 ha, rfl⟩, hname, hc⟩
  · refine (hfound.increasing.filter _).imp fun hlt => ⟨hlt, fun hprefix => ?_⟩
    exact not_lt_of_prefix hprefix hlt
  · rw [List.mem_filter, hfound.mem_iff, decide_eq_true_eq]
  · rw [usage, unknowns_resolveAll_resolveAttribute, hall, List.filter_map, List.flatMap_map,
      List.map_flatMap]
    rfl

/-- An attribute inside the value of another one. -/
def nestedTsx : String :=
  "export const I = () => <i className=\x7bcx(<b className=\"in out\" />)\x7d title=\"no\" />;"

/-- The inner attribute counts, though the outer one does not look into the element. -/
theorem exists_ofText_nestedTsx :
    ∃ m, readModule "I.tsx" (dropMark nestedTsx.toList) = .ok m ∧
      ∃ usage, ofText "I.tsx" nestedTsx = .ok usage ∧ usage.classes.contains "out" = true := by
  have hinner : (readModule "I.tsx" (dropMark nestedTsx.toList)).toOption.map (fun m =>
      ((Piece.module m).attributeAt? [0, 0, 1, 0, 0, 0, 0, 0, 0, 1, 0, 0]).map fun a =>
        match a.value with
        | .text s => decide (IsClassName a) && (classTokens s).contains "out"
        | _ => false) = some (some true) := by
    decide +kernel
  cases hm : readModule "I.tsx" (dropMark nestedTsx.toList) with
  | error e => simp [hm, Except.toOption] at hinner
  | ok m =>
    obtain ⟨usage, husage, hclasses, -⟩ := exists_ofText_eq_ok hm
    refine ⟨m, rfl, usage, husage, (hclasses "out").2 ?_⟩
    rw [hm] at hinner
    obtain ⟨a, ha, hvalue⟩ := Option.map_eq_some_iff.1 (Option.some.inj hinner)
    split at hvalue
    · rename_i s hs
      rw [Bool.and_eq_true, decide_eq_true_eq, List.contains_iff_mem] at hvalue
      exact ⟨_, a, ha, hvalue.1, by rw [hs]; exact hvalue.2⟩
    · exact absurd hvalue (by simp)

end FileUsage

end GlyphTrim
