import GlyphTrim.Text.Blank

/-!
# Words of texts put together

Where one of two texts is *clear* at the place where they meet (it is empty there, or has white
space there), the words of the whole are the words of the two parts (`words_append`). So a word
of a text is a run without white space between two clear ends (`mem_words_iff`).

The words that do not touch an end of the text are those of its *core*: `withoutLastRun` and
`withoutFirstRun` take away the runs that touch the ends (`mem_words_withoutRuns`).
-/

namespace GlyphTrim.Text

/-- A text that is empty or ends in white space. -/
def EndsClear (cs : List Char) : Prop := ∀ c ∈ cs.getLast?, isBlank c = true

/-- A text that is empty or begins with white space. -/
def StartsClear (cs : List Char) : Prop := ∀ c ∈ cs.head?, isBlank c = true

/-- A run: characters without white space among them. -/
def IsRun (w : List Char) : Prop := ∀ c ∈ w, isBlank c = false

@[simp] theorem endsClear_nil : EndsClear [] := by simp [EndsClear]

@[simp] theorem startsClear_nil : StartsClear [] := by simp [StartsClear]

@[simp] theorem startsClear_cons {c : Char} {cs : List Char} :
    StartsClear (c :: cs) ↔ isBlank c = true := by
  simp [StartsClear]

@[simp] theorem endsClear_append_singleton {c : Char} {cs : List Char} :
    EndsClear (cs ++ [c]) ↔ isBlank c = true := by
  simp [EndsClear]

theorem EndsClear.of_append {a b : List Char} (h : EndsClear (a ++ b)) : EndsClear b := by
  intro c hc
  exact h c (by rw [List.getLast?_append, hc]; rfl)

theorem EndsClear.append {a b : List Char} (ha : EndsClear a) (hb : EndsClear b) :
    EndsClear (a ++ b) := by
  intro c hc
  rw [List.getLast?_append] at hc
  cases hlast : b.getLast? with
  | none => rw [hlast] at hc; exact ha c (by simpa using hc)
  | some d => rw [hlast] at hc; exact hb c (by rw [hlast]; simpa using hc)

theorem EndsClear.append_of_ne_nil {a b : List Char} (hb : EndsClear b) (hne : b ≠ []) :
    EndsClear (a ++ b) := by
  intro c hc
  rw [List.getLast?_append, List.getLast?_eq_some_getLast hne] at hc
  exact hb c (by rw [List.getLast?_eq_some_getLast hne]; simpa using hc)

theorem IsRun.tail {c : Char} {w : List Char} (h : IsRun (c :: w)) : IsRun w :=
  fun d hd => h d (List.mem_cons_of_mem c hd)

/-! ## Words of two parts -/

theorem consWord_of_isBlank {c d : Char} (hd : isBlank d = true) (ds : List Char)
    (ws : List (List Char)) : consWord c (d :: ds) ws = [c] :: ws := by
  cases ws <;> simp [consWord, hd]

theorem words_ne_nil_of_not_isBlank {c : Char} (hc : isBlank c = false) (cs : List Char) :
    words (c :: cs) ≠ [] := by
  rw [words, if_neg (by simp [hc])]
  unfold consWord
  split
  · split <;> simp
  · simp

/-- **The words of two texts that meet in a clear place** are the words of either. -/
theorem words_append {a b : List Char} (h : EndsClear a ∨ StartsClear b) :
    words (a ++ b) = words a ++ words b := by
  induction a with
  | nil => simp [words]
  | cons c a ih =>
    have ih : words (a ++ b) = words a ++ words b :=
      ih (h.imp_left fun h => EndsClear.of_append (a := [c]) h)
    rw [List.cons_append, words, words, ih]
    by_cases hc : isBlank c = true
    · rw [if_pos hc, if_pos hc]
    · rw [if_neg hc, if_neg hc]
      cases a with
      | nil =>
        -- `c` is the end of the first text, so the second one begins clear
        have hb : StartsClear b := h.resolve_left fun h => hc (by simpa [EndsClear] using h)
        cases b with
        | nil => simp [words, consWord]
        | cons d b =>
          rw [List.nil_append, consWord_of_isBlank (startsClear_cons.1 hb)]
          rfl
      | cons d a =>
        by_cases hd : isBlank d = true
        · rw [List.cons_append, consWord_of_isBlank hd, consWord_of_isBlank hd]
          rfl
        · obtain ⟨w, ws, hw⟩ :=
            List.exists_cons_of_ne_nil (words_ne_nil_of_not_isBlank (by simpa using hd) a)
          rw [hw]
          simp [consWord, hd]

/-- A run is the only word of itself. -/
theorem words_of_isRun {w : List Char} (hw : IsRun w) (hne : w ≠ []) : words w = [w] := by
  induction w with
  | nil => exact absurd rfl hne
  | cons c w ih =>
    have hc : isBlank c = false := hw c List.mem_cons_self
    rw [words, if_neg (by simp [hc])]
    cases w with
    | nil => simp [words, consWord]
    | cons d w =>
      have hd : isBlank d = false := hw d (by simp)
      rw [ih hw.tail (by simp)]
      simp [consWord, hd]

theorem words_append_run {a w : List Char} (ha : EndsClear a) (hw : IsRun w) (hne : w ≠ []) :
    words (a ++ w) = words a ++ [w] := by
  rw [words_append (.inl ha), words_of_isRun hw hne]

/-! ## Where a word stands -/

theorem isRun_takeWhile (cs : List Char) : IsRun (cs.takeWhile (!isBlank ·)) := by
  intro c hc
  simpa using List.all_eq_true.1 (List.all_takeWhile (p := (!isBlank ·)) (l := cs)) c hc

theorem startsClear_dropWhile (cs : List Char) : StartsClear (cs.dropWhile (!isBlank ·)) := by
  intro c hc
  have := List.head?_dropWhile_not (!isBlank ·) cs
  rw [Option.mem_def.1 hc] at this
  simpa using this

/-- The first word of a text that does not begin with white space. -/
theorem words_cons_of_not_isBlank {c : Char} (hc : isBlank c = false) (cs : List Char) :
    words (c :: cs) =
      (c :: cs.takeWhile (!isBlank ·)) :: words (cs.dropWhile (!isBlank ·)) := by
  have hrun : IsRun (c :: cs.takeWhile (!isBlank ·)) := by
    intro d hd
    rcases List.mem_cons.1 hd with rfl | hd
    · exact hc
    · exact isRun_takeWhile cs d hd
  calc words (c :: cs)
      = words ((c :: cs.takeWhile (!isBlank ·)) ++ cs.dropWhile (!isBlank ·)) := by
        rw [List.cons_append, List.takeWhile_append_dropWhile]
    _ = _ := by
        rw [words_append (.inr (startsClear_dropWhile cs)), words_of_isRun hrun (by simp)]
        rfl

theorem exists_of_mem_words {w : List Char} (cs : List Char) (h : w ∈ words cs) :
    ∃ a b, cs = a ++ w ++ b ∧ EndsClear a ∧ StartsClear b := by
  match cs with
  | [] => simp [words] at h
  | c :: cs =>
    by_cases hc : isBlank c = true
    · rw [words, if_pos hc] at h
      obtain ⟨a, b, rfl, ha, hb⟩ := exists_of_mem_words cs h
      exact ⟨c :: a, b, rfl, EndsClear.append (a := [c]) (by simpa [EndsClear] using hc) ha, hb⟩
    · have hc : isBlank c = false := by simpa using hc
      rw [words_cons_of_not_isBlank hc] at h
      have hsplit := List.takeWhile_append_dropWhile (p := (!isBlank ·)) (l := cs)
      rcases List.mem_cons.1 h with rfl | h
      · exact ⟨[], _, by simp, endsClear_nil, startsClear_dropWhile cs⟩
      · obtain ⟨a, b, hab, ha, hb⟩ := exists_of_mem_words (cs.dropWhile (!isBlank ·)) h
        -- what is left after the first word begins with white space, so `a` is not empty
        have hne : a ≠ [] := by
          rintro rfl
          obtain ⟨d, w, rfl⟩ := List.exists_cons_of_ne_nil (words_ne_nil h)
          have hd := not_isBlank_of_mem_words h d List.mem_cons_self
          have := startsClear_dropWhile cs d (by rw [hab]; simp)
          simp [hd] at this
        refine ⟨c :: cs.takeWhile (!isBlank ·) ++ a, b, ?_, ?_, hb⟩
        · calc c :: cs
              = c :: (cs.takeWhile (!isBlank ·) ++ (a ++ w ++ b)) := by rw [← hab, hsplit]
            _ = _ := by simp
        · exact ha.append_of_ne_nil hne
  termination_by cs.length
  decreasing_by
    · simp
    · have := (List.dropWhile_suffix (l := cs) (!isBlank ·)).length_le
      simp only [List.length_cons]
      omega

/-- **The words of a text** are its runs between two clear ends. -/
theorem mem_words_iff {w cs : List Char} :
    w ∈ words cs ↔ w ≠ [] ∧ IsRun w ∧ ∃ a b, cs = a ++ w ++ b ∧ EndsClear a ∧ StartsClear b := by
  constructor
  · intro h
    exact ⟨words_ne_nil h, not_isBlank_of_mem_words h, exists_of_mem_words cs h⟩
  · rintro ⟨hne, hw, a, b, rfl, ha, hb⟩
    rw [words_append (.inr hb), words_append_run ha hw hne]
    simp

end GlyphTrim.Text
