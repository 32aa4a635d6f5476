import GlyphTrim.Proofs.Css.Comment
import GlyphTrim.Proofs.Css.SelectorList
import GlyphTrim.Proofs.Glyph.Index
import GlyphTrim.Proofs.Text.Trim

/-!
# The classes of a selector list

With a comment in it, no selector becomes that of a glyph (`looksLikeGlyph_of_insert`). So a comment
in a selector that is none leaves the classes of the list as they are (`classesOfList_insert`).
-/

namespace GlyphTrim.Glyph

open Css Text

variable {u v a b : List Char}

/-! ## The classes of a list -/

/-- The class whose glyph a selector is about, with the white space around it. -/
def classOfPiece (piece : List Char) : Option String :=
  classOfSelector (String.ofList (trimChars piece))

/-- The classes that a list of selectors is about. -/
def classesOfList (cs : List Char) : List String :=
  (selectorList (String.ofList cs)).filterMap classOfSelector

theorem classesOfList_eq (cs : List Char) :
    classesOfList cs = (splitSelectors {} cs).filterMap classOfPiece := by
  rw [classesOfList, selectorList, String.toList_ofList, List.filterMap_map, List.filterMap_filter,
    List.filterMap_map]
  refine List.filterMap_congr fun piece _ => ?_
  simp only [Function.comp_apply, classOfPiece]
  cases hpiece : trimChars piece with
  | nil => rfl
  | cons c cs => rfl

/-- White space in front of a list does not count. -/
theorem classesOfList_of_blank_append {l : List Char} (hl : ∀ c ∈ l, isBlank c = true)
    (cs : List Char) : classesOfList (l ++ cs) = classesOfList cs := by
  obtain ⟨b, back, hcs⟩ := List.exists_cons_of_ne_nil (splitSelectors_ne_nil {} cs)
  have hmarks : selectorMarks.all (!isBlank ·) = true := by decide
  have hnone : ∀ c ∈ l, c ∉ selectorMarks := fun c hc hmark =>
    absurd (List.all_eq_true.1 hmarks c hmark) (by simp [hl c hc])
  rw [classesOfList_eq, classesOfList_eq, hcs, splitSelectors_append_of_not_mark rfl hnone hcs]
  simp only [List.filterMap_cons, classOfPiece, trimChars_of_blank_append hl]

/-- White space behind a list does not count. -/
theorem classesOfList_append_of_blank {e : List Char} (he : ∀ c ∈ e, isBlank c = true)
    (cs : List Char) : classesOfList (cs ++ e) = classesOfList cs := by
  obtain ⟨front, a, hcs⟩ := (List.eq_nil_or_concat' (splitSelectors {} cs)).resolve_left
    (splitSelectors_ne_nil {} cs)
  have hcomma : ',' ∉ e := fun h => absurd (he _ h) (by decide)
  rw [classesOfList_eq, classesOfList_eq, hcs,
    splitSelectors_append hcs (splitSelectors_of_not_comma _ hcomma)]
  simp only [List.filterMap_append, List.filterMap_cons, classOfPiece,
    trimChars_append_of_blank he]

theorem classesOfList_trimChars (cs : List Char) :
    classesOfList (trimChars cs) = classesOfList cs := by
  obtain ⟨l, e, hcs, hl, he⟩ := exists_trimChars cs
  conv_rhs => rw [hcs]
  rw [classesOfList_of_blank_append hl, classesOfList_append_of_blank he]

/-! ## Comments in a list -/

/-- Whether a selector begins with a dot and ends like the selector of a glyph. -/
def looksLikeGlyph (cs : List Char) : Bool := cs.head? == some '.' && glyphEnding.isSuffixOf cs

theorem looksLikeGlyph_of_classOfPiece {piece : List Char} {c : String}
    (h : classOfPiece piece = some c) : looksLikeGlyph (trimChars piece) = true := by
  obtain ⟨-, heq⟩ := classOfSelector_eq_some_iff.1 h
  have htext := congrArg String.toList heq
  rw [String.toList_ofList, toList_glyphSelector] at htext
  have hsuffix : glyphEnding <:+ '.' :: (c.toList ++ glyphEnding) := ⟨'.' :: c.toList, by simp⟩
  rw [looksLikeGlyph, htext, List.isSuffixOf_iff_suffix.2 hsuffix]
  rfl

/-- What ends a text with a character that it does not hold stands behind the character. -/
theorem suffix_of_suffix_append_cons {w x y : List Char} {c : Char} (h : w <:+ x ++ c :: y)
    (hc : c ∉ w) : w <:+ y := by
  have hcons : c :: y <:+ x ++ c :: y := List.suffix_append _ _
  rcases List.suffix_or_suffix_of_suffix h hcons with hw | hw
  · rcases List.suffix_cons_iff.1 hw with rfl | hw
    · exact absurd List.mem_cons_self hc
    · exact hw
  · exact absurd (hw.subset List.mem_cons_self) hc

/-- The ending of a glyph stays behind other characters and in front of white space. -/
theorem suffix_trimChars_append (a : List Char) {b : List Char}
    (h : glyphEnding <:+ b.rdropWhile isBlank) : glyphEnding <:+ trimChars (a ++ b) := by
  obtain ⟨b', hb'⟩ := h
  obtain ⟨e, hb, he⟩ : ∃ e, b = b.rdropWhile isBlank ++ e ∧ ∀ c ∈ e, isBlank c = true :=
    ⟨b.rtakeWhile isBlank, List.rdropWhile_append_rtakeWhile.symm,
      fun c hc => List.mem_rtakeWhile_imp hc⟩
  have hending : glyphEnding = ':' :: "before".toList := by decide
  have hink : ("before".toList).rdropWhile isBlank = "before".toList := by decide
  rw [hb, ← List.append_assoc, trimChars_append_of_blank he, ← hb', ← List.append_assoc, hending,
    trimChars_append_cons (by decide), hink]
  exact List.suffix_append _ _

/-- With a comment in it, no selector becomes that of a glyph. -/
theorem looksLikeGlyph_of_insert {k : List Char}
    (h : looksLikeGlyph (trimChars (a ++ '/' :: (k ++ '/' :: b))) = true) :
    looksLikeGlyph (trimChars (a ++ b)) = true := by
  rw [looksLikeGlyph, Bool.and_eq_true, beq_iff_eq, List.isSuffixOf_iff_suffix] at h ⊢
  obtain ⟨hhead, hending⟩ := h
  have hne : trimChars a ≠ [] := by
    intro hnil
    rw [head?_trimChars_append_cons hnil (by decide)] at hhead
    exact absurd hhead (by decide)
  rw [head?_trimChars_append hne] at hhead
  refine ⟨by rw [head?_trimChars_append hne, hhead], suffix_trimChars_append a ?_⟩
  have hslash : a ++ '/' :: (k ++ '/' :: b) = (a ++ '/' :: k) ++ '/' :: b := by simp
  rw [hslash, trimChars_append_cons (by decide)] at hending
  exact suffix_of_suffix_append_cons hending (by decide)

/-- The selector around a place in a list. -/
def selectorAround (u v : List Char) : List Char :=
  (splitSelectors {} u).getLastD [] ++
    (splitSelectors (u.foldl SelectorState.step {}) v).headD []

/-- Whether a comment between `u` and `v` can change the classes of a list of selectors: the
selector around it could be that of a glyph, or the comment itself is read as selectors. -/
def listCounts (u v body : List Char) : Bool :=
  looksLikeGlyph (trimChars (selectorAround u v)) || body.any selectorMarks.contains ||
    (u.foldl SelectorState.step {}).escaped

theorem classOfPiece_eq_none {piece : List Char} (h : looksLikeGlyph (trimChars piece) = false) :
    classOfPiece piece = none := by
  by_contra hne
  obtain ⟨c, hc⟩ := Option.ne_none_iff_exists'.1 hne
  rw [looksLikeGlyph_of_classOfPiece hc] at h
  exact absurd h Bool.noConfusion

/-- **A comment in a list of selectors** leaves the classes as they are, if it stands in no selector
of a glyph and has no marks. -/
theorem classesOfList_insert {body : List Char} (h : listCounts u v body = false) :
    classesOfList (u ++ (commentText body ++ v)) = classesOfList (u ++ v) := by
  rw [listCounts, Bool.or_eq_false_iff, Bool.or_eq_false_iff] at h
  obtain ⟨⟨haround, hbody⟩, hescaped⟩ := h
  obtain ⟨front, a, hu⟩ := (List.eq_nil_or_concat' (splitSelectors {} u)).resolve_left
    (splitSelectors_ne_nil {} u)
  obtain ⟨b, back, hv⟩ := List.exists_cons_of_ne_nil
    (splitSelectors_ne_nil (u.foldl SelectorState.step {}) v)
  have hmarks : ∀ c ∈ commentText body, c ∉ selectorMarks := by
    intro c hc hmark
    have hslash : '/' ∉ selectorMarks := by decide
    have hstar : '*' ∉ selectorMarks := by decide
    simp only [commentText, List.mem_cons, List.mem_append, List.not_mem_nil, or_false] at hc
    rcases hc with rfl | rfl | hc | rfl | rfl
    · exact hslash hmark
    · exact hstar hmark
    · exact absurd hbody (by simpa using ⟨c, hc, hmark⟩)
    · exact hstar hmark
    · exact hslash hmark
  rw [selectorAround, hu, hv] at haround
  have hold : looksLikeGlyph (trimChars (a ++ b)) = false := by simpa using haround
  have hnew : looksLikeGlyph (trimChars (a ++ (commentText body ++ b))) = false := by
    have hshape : a ++ (commentText body ++ b) =
        a ++ '/' :: (('*' :: (body ++ ['*'])) ++ '/' :: b) := by simp [commentText]
    rw [hshape, Bool.eq_false_iff]
    intro hglyph
    rw [looksLikeGlyph_of_insert hglyph] at hold
    exact absurd hold Bool.noConfusion
  rw [classesOfList_eq, classesOfList_eq, splitSelectors_append hu hv,
    splitSelectors_append hu (splitSelectors_append_of_not_mark hescaped hmarks hv)]
  simp only [List.filterMap_append, List.filterMap_cons, classOfPiece_eq_none hold,
    classOfPiece_eq_none hnew]

end GlyphTrim.Glyph
