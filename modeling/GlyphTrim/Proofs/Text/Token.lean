import GlyphTrim.Proofs.Text.Words

/-!
# Tokens

A *token* is a text that is not empty and holds no white space. Here the white space is listed
character by character (`whiteSpace`), and `isBlank_iff_mem_whiteSpace` compares the list with the
test by which texts are cut. The words of a text are tokens, whatever stands around them
(`isToken_of_mem_words`), and a token is the only word of itself
(`classTokens_eq_singleton_iff`).
-/

namespace GlyphTrim.Text

/-- The characters with the Unicode property `White_Space`. -/
def whiteSpace : List Char := [
  '\t', '\n', '\x0b', '\x0c', '\r', ' ', '\u0085', '\u00a0', '\u1680',
  '\u2000', '\u2001', '\u2002', '\u2003', '\u2004', '\u2005', '\u2006', '\u2007', '\u2008',
  '\u2009', '\u200a', '\u2028', '\u2029', '\u202f', '\u205f', '\u3000']

theorem isBlank_iff_mem_whiteSpace {c : Char} : isBlank c = true ↔ c ∈ whiteSpace := by
  simp only [whiteSpace, List.mem_cons, List.not_mem_nil, or_false, ← Char.toNat_inj]
  simp only [isBlank, Bool.or_eq_true, Bool.and_eq_true, decide_eq_true_eq, beq_iff_eq,
    Char.reduceToNat]
  omega

/-- A text that is not empty and holds no white space. -/
structure IsToken (s : String) : Prop where
  ne_empty : s ≠ ""
  no_whiteSpace : ∀ c ∈ s.toList, c ∉ whiteSpace

theorem isRun_iff {w : List Char} : IsRun w ↔ ∀ c ∈ w, c ∉ whiteSpace := by
  simp only [IsRun, ← isBlank_iff_mem_whiteSpace, Bool.not_eq_true]

theorem isToken_iff {s : String} : IsToken s ↔ s.toList ≠ [] ∧ IsRun s.toList := by
  rw [isRun_iff, ne_eq, String.toList_eq_nil_iff]
  exact ⟨fun h => ⟨h.ne_empty, h.no_whiteSpace⟩, fun h => ⟨h.1, h.2⟩⟩

theorem isToken_of_mem_words {w cs : List Char} (h : w ∈ words cs) :
    IsToken (String.ofList w) := by
  rw [isToken_iff, String.toList_ofList]
  exact ⟨words_ne_nil h, not_isBlank_of_mem_words h⟩

theorem isToken_of_mem_classTokens {s t : String} (h : t ∈ classTokens s) : IsToken t := by
  obtain ⟨w, hw, rfl⟩ := List.mem_map.1 h
  exact isToken_of_mem_words hw

/-- **The tokens** are the texts that are the only word of themselves. -/
theorem classTokens_eq_singleton_iff {s : String} : classTokens s = [s] ↔ IsToken s := by
  constructor
  · intro h
    exact isToken_of_mem_classTokens (h ▸ List.mem_singleton_self s)
  · intro h
    obtain ⟨hne, hrun⟩ := isToken_iff.1 h
    rw [classTokens, words_of_isRun hrun hne, List.map_singleton, String.ofList_toList]

instance (s : String) : Decidable (IsToken s) :=
  decidable_of_iff (classTokens s = [s]) classTokens_eq_singleton_iff

/-- An ideographic space is white space, and a space without width is not. -/
example : ¬IsToken "icon\u3000home" ∧ IsToken "icon\u200bhome" := by
  decide

end GlyphTrim.Text
