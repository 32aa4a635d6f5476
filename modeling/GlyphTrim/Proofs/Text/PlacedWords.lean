import GlyphTrim.Proofs.Text.Words

/-!
# Words at their places

The same word can stand in a text several times. `placedWords` lists the words of a text with what
stands in front of each and behind it: just the runs between two clear ends
(`mem_placedWords_iff`), from left to right (`pairwise_placedWords`). Without their places they are
the words of the text (`map_word_placedWords`).

Only the first word can touch the start of the text (`filter_front_placedFrom`), and only the last
one its end (`filter_back_placedFrom`).
-/

namespace GlyphTrim.Text

/-- A word of a text at its place. -/
structure PlacedWord where
  /-- What the text has in front of the word. -/
  front : List Char
  word : List Char
  /-- What the text has behind the word. -/
  back : List Char
  deriving Repr, DecidableEq

/-- The word stands at its place in the text: a run between two clear ends. -/
structure PlacedWord.StandsIn (p : PlacedWord) (cs : List Char) : Prop where
  text_eq : cs = p.front ++ (p.word ++ p.back)
  ne_nil : p.word ≠ []
  isRun : IsRun p.word
  endsClear : EndsClear p.front
  startsClear : StartsClear p.back

-- not decided over all characters, though there are finitely many
instance (cs : List Char) : Decidable (EndsClear cs) :=
  decidable_of_iff (cs.getLast?.all isBlank = true) (by simp [EndsClear, Option.all_eq_true])

instance (cs : List Char) : Decidable (StartsClear cs) :=
  decidable_of_iff (cs.head?.all isBlank = true) (by simp [StartsClear, Option.all_eq_true])

instance (w : List Char) : Decidable (IsRun w) :=
  decidable_of_iff (w.all (!isBlank ·) = true) (by simp [IsRun])

/-- The words that begin in the text behind `front`. -/
def placedFrom (front : List Char) : List Char → List PlacedWord
  | [] => []
  | c :: cs =>
    if isBlank c = false ∧ EndsClear front then
      ⟨front, c :: cs.takeWhile (!isBlank ·), cs.dropWhile (!isBlank ·)⟩ ::
        placedFrom (front ++ [c]) cs
    else placedFrom (front ++ [c]) cs

/-- The words of a text at their places. -/
def placedWords (cs : List Char) : List PlacedWord := placedFrom [] cs

/-! ## Where words stand -/

section

variable {front cs : List Char} {c : Char} {p : PlacedWord}

/-- A run up to a clear place is the longest one. -/
theorem takeWhile_append_of_isRun {w b : List Char} (hw : IsRun w) (hb : StartsClear b) :
    (w ++ b).takeWhile (!isBlank ·) = w ∧ (w ++ b).dropWhile (!isBlank ·) = b := by
  have hink : ∀ c ∈ w, (!isBlank c) = true := fun c hc => by simp [hw c hc]
  rw [List.takeWhile_append_of_pos hink, List.dropWhile_append_of_pos hink]
  cases b with
  | nil => simp
  | cons c b => simp [startsClear_cons.1 hb]

/-- The word that begins at a place. -/
theorem standsIn_head (hc : isBlank c = false) (hfront : EndsClear front) :
    (PlacedWord.mk front (c :: cs.takeWhile (!isBlank ·)) (cs.dropWhile (!isBlank ·))).StandsIn
      (front ++ c :: cs) where
  text_eq := by rw [List.cons_append, List.takeWhile_append_dropWhile]
  ne_nil := List.cons_ne_nil _ _
  isRun := by
    intro d hd
    rcases List.mem_cons.1 hd with rfl | hd
    · exact hc
    · exact isRun_takeWhile cs d hd
  endsClear := hfront
  startsClear := startsClear_dropWhile cs

/-- A word is told by its place. -/
theorem PlacedWord.StandsIn.eq_head (h : p.StandsIn (front ++ c :: cs)) (hp : p.front = front) :
    isBlank c = false ∧ EndsClear front ∧
      p = ⟨front, c :: cs.takeWhile (!isBlank ·), cs.dropWhile (!isBlank ·)⟩ := by
  obtain ⟨front', word, back⟩ := p
  obtain rfl : front' = front := hp
  obtain ⟨htext, hne, hrun, hends, hstarts⟩ := h
  dsimp only at htext hne hrun hends hstarts
  obtain ⟨d, w, rfl⟩ := List.exists_cons_of_ne_nil hne
  obtain ⟨rfl, rfl⟩ := List.cons.inj (List.append_cancel_left htext)
  obtain ⟨htake, hdrop⟩ := takeWhile_append_of_isRun hrun.tail hstarts
  refine ⟨hrun c List.mem_cons_self, hends, ?_⟩
  simp only [List.append_eq, htake, hdrop]

theorem mem_placedFrom_iff :
    p ∈ placedFrom front cs ↔ front <+: p.front ∧ p.StandsIn (front ++ cs) := by
  induction cs generalizing front with
  | nil =>
    refine iff_of_false List.not_mem_nil ?_
    rintro ⟨hp, h⟩
    -- nothing is left for the word
    have hlength := congrArg List.length h.text_eq
    simp only [List.append_nil, List.length_append] at hlength
    have hword := List.length_pos_iff.2 h.ne_nil
    have hfront := hp.length_le
    omega
  | cons c cs ih =>
    have happ : front ++ [c] ++ cs = front ++ c :: cs := by simp
    have hlater : p ∈ placedFrom (front ++ [c]) cs ↔
        front ++ [c] <+: p.front ∧ p.StandsIn (front ++ c :: cs) := by rw [ih, happ]
    have hwhere : front <+: p.front ∧ p.StandsIn (front ++ c :: cs) ↔
        (isBlank c = false ∧ EndsClear front ∧
          p = ⟨front, c :: cs.takeWhile (!isBlank ·), cs.dropWhile (!isBlank ·)⟩) ∨
        front ++ [c] <+: p.front ∧ p.StandsIn (front ++ c :: cs) := by
      constructor
      · rintro ⟨⟨a, ha⟩, h⟩
        cases a with
        | nil => exact .inl (h.eq_head (by rw [← ha, List.append_nil]))
        | cons d a =>
          have htext := h.text_eq
          rw [← ha, List.append_assoc] at htext
          obtain ⟨rfl, -⟩ := List.cons.inj (List.append_cancel_left htext)
          exact .inr ⟨⟨a, by rw [← ha]; simp⟩, h⟩
      · rintro (⟨hc, hfront, rfl⟩ | ⟨hp, h⟩)
        · exact ⟨List.prefix_rfl, standsIn_head hc hfront⟩
        · exact ⟨(List.prefix_append front [c]).trans hp, h⟩
    rw [hwhere, ← hlater, placedFrom]
    split
    · rename_i hbegins
      rw [List.mem_cons]
      simp only [hbegins.1, hbegins.2, true_and]
    · rename_i hbegins
      refine ⟨.inr, fun h => h.resolve_left ?_⟩
      rintro ⟨hc, hfront, -⟩
      exact hbegins ⟨hc, hfront⟩

theorem pairwise_placedFrom :
    (placedFrom front cs).Pairwise (·.front.length < ·.front.length) := by
  induction cs generalizing front with
  | nil => exact List.Pairwise.nil
  | cons c cs ih =>
    rw [placedFrom]
    split
    · refine List.pairwise_cons.2 ⟨fun p hp => ?_, ih⟩
      have hlength := (mem_placedFrom_iff.1 hp).1.length_le
      rw [List.length_append, List.length_singleton] at hlength
      exact hlength
    · exact ih

/-- Behind a text that ends in a word, the rest of this word is passed. -/
theorem map_word_placedFrom : (placedFrom front cs).map (·.word) =
    words (if EndsClear front then cs else cs.dropWhile (!isBlank ·)) := by
  induction cs generalizing front with
  | nil => simp [placedFrom, words]
  | cons c cs ih =>
    cases hc : isBlank c with
    | true =>
      rw [placedFrom, if_neg (by simp [hc]), ih, if_pos (endsClear_append_singleton.2 hc),
        List.dropWhile_cons_of_neg (by simp [hc]), ite_self, words, if_pos hc]
    | false =>
      have hink : ¬EndsClear (front ++ [c]) := by simp [hc]
      rw [placedFrom, List.dropWhile_cons_of_pos (by simp [hc])]
      by_cases hfront : EndsClear front
      · rw [if_pos ⟨hc, hfront⟩, List.map_cons, ih, if_neg hink, if_pos hfront,
          words_cons_of_not_isBlank hc]
      · rw [if_neg fun h => hfront h.2, ih, if_neg hink, if_neg hfront]

end

/-- **The words of a text at their places** are its runs between two clear ends. -/
theorem mem_placedWords_iff {p : PlacedWord} {cs : List Char} :
    p ∈ placedWords cs ↔ p.StandsIn cs := by
  rw [placedWords, mem_placedFrom_iff]
  exact and_iff_right List.nil_prefix

theorem pairwise_placedWords (cs : List Char) :
    (placedWords cs).Pairwise (·.front.length < ·.front.length) := pairwise_placedFrom

theorem map_word_placedWords (cs : List Char) : (placedWords cs).map (·.word) = words cs := by
  rw [placedWords, map_word_placedFrom, if_pos endsClear_nil]

/-! ## Words that touch an end of the text -/

theorem endsClear_cons_iff {c : Char} {cs : List Char} (hcs : cs ≠ []) :
    EndsClear (c :: cs) ↔ EndsClear cs := by
  rw [EndsClear, List.getLast?_cons_of_ne_nil hcs, EndsClear]

theorem endsClear_of_words_eq_nil {cs : List Char} (h : words cs = []) : EndsClear cs := by
  induction cs with
  | nil => exact endsClear_nil
  | cons c cs ih =>
    cases hc : isBlank c with
    | true =>
      rw [words, if_pos hc] at h
      exact EndsClear.append (a := [c]) (by simpa [EndsClear] using hc) (ih h)
    | false => exact absurd h (words_ne_nil_of_not_isBlank hc cs)

theorem IsRun.not_endsClear {w : List Char} (h : IsRun w) (hne : w ≠ []) : ¬EndsClear w := by
  intro hclear
  have hlast := hclear _ (List.getLast?_eq_some_getLast hne)
  rw [h _ (List.getLast_mem hne)] at hlast
  exact absurd hlast (by simp)

/-- Behind a word that touches the end of the text there is no other one. -/
theorem placedFrom_eq_nil {cs : List Char} {c : Char} (hc : isBlank c = false)
    (hback : cs.dropWhile (!isBlank ·) = []) (front : List Char) :
    placedFrom (front ++ [c]) cs = [] := by
  have hwords : (placedFrom (front ++ [c]) cs).map (·.word) = _ := map_word_placedFrom
  rw [if_neg (by simp [hc]), hback] at hwords
  exact List.map_eq_nil_iff.1 hwords

/-- Behind a word that does not touch the end of the text there is another one, unless the text
ends clear. -/
theorem placedFrom_ne_nil {cs : List Char} {c : Char} (hc : isBlank c = false)
    (hback : cs.dropWhile (!isBlank ·) ≠ []) (hcs : ¬EndsClear cs) (front : List Char) :
    placedFrom (front ++ [c]) cs ≠ [] := by
  intro hnil
  have hwords : (placedFrom (front ++ [c]) cs).map (·.word) = _ := map_word_placedFrom
  rw [hnil, if_neg (by simp [hc])] at hwords
  refine hcs ?_
  rw [← List.takeWhile_append_dropWhile (p := (!isBlank ·)) (l := cs)]
  exact (endsClear_of_words_eq_nil hwords.symm).append_of_ne_nil hback

/-- Only the last word can touch the end of the text. -/
theorem filter_back_placedFrom (front cs : List Char) :
    (placedFrom front cs).filter (·.back ≠ []) =
      if EndsClear cs then placedFrom front cs else (placedFrom front cs).dropLast := by
  induction cs generalizing front with
  | nil => rfl
  | cons c cs ih =>
    rw [placedFrom]
    split
    · rename_i hbegins
      obtain ⟨hc, hfront⟩ := hbegins
      by_cases hback : cs.dropWhile (!isBlank ·) = []
      · -- the word is the rest of the text
        have hrun : IsRun (c :: cs) := by
          have hwhole : IsRun (c :: cs.takeWhile (!isBlank ·)) :=
            (standsIn_head hc hfront).isRun
          rwa [← List.append_nil (cs.takeWhile _), ← hback,
            List.takeWhile_append_dropWhile] at hwhole
        rw [placedFrom_eq_nil hc hback, if_neg (hrun.not_endsClear (List.cons_ne_nil c cs)), hback]
        rfl
      · have hcs : cs ≠ [] := by
          rintro rfl
          exact hback rfl
        rw [List.filter_cons_of_pos (by simpa using hback), ih]
        simp only [endsClear_cons_iff hcs]
        split
        · rfl
        · rename_i hclear
          rw [List.dropLast_cons_of_ne_nil (placedFrom_ne_nil hc hback hclear front)]
    · by_cases hcs : cs = []
      · rw [hcs]
        simp [placedFrom]
      · simp only [ih, endsClear_cons_iff hcs]

/-- Only the first word can touch the start of the text. -/
theorem filter_front_placedFrom {front : List Char} (hfront : front ≠ []) (cs : List Char) :
    (placedFrom front cs).filter (·.front ≠ []) = placedFrom front cs := by
  refine List.filter_eq_self.2 fun p hp => ?_
  have hprefix := (mem_placedFrom_iff.1 hp).1
  simpa using fun hnil : p.front = [] => hfront (List.prefix_nil.1 (hnil ▸ hprefix))

end GlyphTrim.Text
