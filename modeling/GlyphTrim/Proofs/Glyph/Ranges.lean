import GlyphTrim.Glyph.Plan
import GlyphTrim.Proofs.Glyph.Codepoint

/-!
# What a subsetter is asked to keep

A subsetter gets the characters that stay as one argument, a list of codepoints. `readRanges` reads
such an argument, and reads the argument of every plan back as the characters of the plan
(`readRanges_ranges`). So different texts never give the same argument.
-/

namespace GlyphTrim.Glyph

open Text

/-- The character of a range of one codepoint: `U+` and the digits of its number. -/
def readRange : List Char → Option Char
  | 'U' :: '+' :: digits => parseCodepoint (String.ofList digits)
  | _ => none

/-- The characters of an argument: nothing, or ranges with commas between them. -/
def readRanges (argument : String) : Option (List Char) :=
  if argument = "" then some [] else (argument.toList.splitOn ',').mapM readRange

/-! ## One range -/

theorem parseCodepoint_ofList_capitalHex (c : Char) :
    parseCodepoint (String.ofList (capitalHex 4 c.toNat)) = some c := by
  have hhex : ∀ x ∈ capitalHex 4 c.toNat, isHexDigit x = true :=
    fun x hx => isHexDigit_of_mem_capitalHex hx
  have hfilter : (String.ofList (capitalHex 4 c.toNat)).toList.filter (· != '\\') =
      [] ++ (capitalHex 4 c.toNat ++ []) := by
    rw [String.toList_ofList, filter_backslash_of_digits hhex, List.append_nil, List.nil_append]
  have hrun := leadingDigits_unmarked hfilter (.inl rfl) (capitalHex_succ_ne_nil 3 _) hhex (by simp)
  rw [parseCodepoint_eq_some_iff, hrun.codepointDigits_eq]
  exact ⟨capitalHex_succ_ne_nil 3 _, hexNumber_capitalHex 4 _⟩

/-- A range of one codepoint is read back. -/
theorem readRange_formatCodepoint (c : Char) : readRange (formatCodepoint c).toList = some c := by
  rw [formatCodepoint, String.toList_ofList]
  exact parseCodepoint_ofList_capitalHex c

/-- A range of one codepoint holds no comma. -/
theorem comma_not_mem_formatCodepoint (c : Char) : ',' ∉ (formatCodepoint c).toList := by
  intro h
  rw [formatCodepoint, String.toList_ofList, List.mem_cons, List.mem_cons] at h
  rcases h with h | h | h
  · exact absurd h (by decide)
  · exact absurd h (by decide)
  · exact absurd (isHexDigit_of_mem_capitalHex h) (by decide)

/-! ## Many ranges -/

theorem toList_unicodeRanges (text : String) : (unicodeRanges text).toList =
    [','].intercalate (text.toList.map fun c => (formatCodepoint c).toList) := by
  rw [unicodeRanges, String.toList_intercalate, List.map_map]
  rfl

theorem splitOn_unicodeRanges {text : String} (hne : text.toList ≠ []) :
    (unicodeRanges text).toList.splitOn ',' =
      text.toList.map fun c => (formatCodepoint c).toList := by
  rw [toList_unicodeRanges, List.splitOn_intercalate]
  · intro range hrange
    obtain ⟨c, -, rfl⟩ := List.mem_map.1 hrange
    exact comma_not_mem_formatCodepoint c
  · simpa using hne

theorem unicodeRanges_eq_empty_iff {text : String} :
    unicodeRanges text = "" ↔ text.toList = [] := by
  constructor
  · intro h
    by_contra hne
    have hsplit := splitOn_unicodeRanges hne
    obtain ⟨c, cs, hcs⟩ := List.exists_cons_of_ne_nil hne
    rw [h, hcs, List.map_cons] at hsplit
    have hempty := (List.cons.inj hsplit).1
    rw [formatCodepoint, String.toList_ofList] at hempty
    exact List.cons_ne_nil _ _ hempty.symm
  · intro h
    rw [unicodeRanges, h]
    rfl

/-- The ranges of a text are read back as the characters of the text. -/
theorem readRanges_unicodeRanges (text : String) :
    readRanges (unicodeRanges text) = some text.toList := by
  unfold readRanges
  split_ifs with h
  · rw [unicodeRanges_eq_empty_iff.1 h]
  · have hne : text.toList ≠ [] := fun hnil => h (unicodeRanges_eq_empty_iff.2 hnil)
    have hone : readRange ∘ (fun c => (formatCodepoint c).toList) = fun c => pure (id c) :=
      funext readRange_formatCodepoint
    rw [splitOn_unicodeRanges hne, List.mapM_map, hone, List.mapM_pure, List.map_id]
    rfl

/-! ## Plans -/

/-- **The argument of a plan says exactly which characters stay**: it is read back as the
characters of the glyphs, one after the other and each as often as it is planned. For a plan from
the classes that keep their glyph these are the characters of their literals. Plans with different
texts have different arguments, and only a plan without glyphs has an empty one. -/
theorem readRanges_ranges :
    (∀ p : Plan, readRanges p.request.ranges = some (p.glyphs.map (·.2))) ∧
    (∀ (retained : Retained) (font css : Path),
      readRanges (Plan.ofRetained retained font css).request.ranges =
        some (retained.entries.filterMap fun e => parseCodepoint e.2)) ∧
    (∀ p q : Plan, p.request.ranges = q.request.ranges ↔ p.text = q.text) ∧
    ∀ p : Plan, p.request.ranges = "" ↔ p.isEmpty = true := by
  have hread (p : Plan) : readRanges p.request.ranges = some (p.glyphs.map (·.2)) := by
    show readRanges (unicodeRanges p.text) = _
    rw [readRanges_unicodeRanges, Plan.text, String.toList_ofList]
  refine ⟨hread, fun retained font css => ?_, fun p q => ⟨fun h => ?_, fun h => ?_⟩, fun p => ?_⟩
  · have hglyphs : (Plan.ofRetained retained font css).glyphs = validGlyphs retained := rfl
    rw [hread, hglyphs, validGlyphs, List.map_filterMap]
    simp [Function.comp_def]
  · have hp := hread p
    rw [h, hread q] at hp
    rw [Plan.text, Plan.text, Option.some.inj hp]
  · show unicodeRanges p.text = unicodeRanges q.text
    rw [h]
  · show unicodeRanges p.text = "" ↔ p.glyphs.isEmpty = true
    rw [unicodeRanges_eq_empty_iff, Plan.text, String.toList_ofList, List.map_eq_nil_iff,
      List.isEmpty_iff]

end GlyphTrim.Glyph
