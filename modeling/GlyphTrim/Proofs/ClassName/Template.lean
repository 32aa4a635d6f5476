import Mathlib.Data.List.TakeWhile
import GlyphTrim.ClassName.Template
import GlyphTrim.Proofs.Text.Words

/-!
# The static texts of a template

A static text falls into three: the run that touches the slot before it, the run that touches the
slot behind it, and what is between them, which is its `inner` text. The free tokens of a static
text are the words of its inner text (`freeTokens_eq`), and the prefix of a slot is the last run of
the text before it, if that has two characters or more and ends in a hyphen
(`isSome_inferPrefix_iff`).
-/

namespace GlyphTrim.ClassName

open Text

/-- The text without the run at its end. -/
def withoutLastRun (cs : List Char) : List Char :=
  (cs.reverse.dropWhile fun c => !isBlank c).reverse

theorem withoutLastRun_append_lastRun (cs : List Char) : withoutLastRun cs ++ lastRun cs = cs := by
  rw [withoutLastRun, lastRun, ← List.reverse_append, List.takeWhile_append_dropWhile,
    List.reverse_reverse]

theorem isRun_lastRun (cs : List Char) : IsRun (lastRun cs) := by
  intro c hc
  exact isRun_takeWhile cs.reverse c (List.mem_reverse.1 hc)

theorem endsClear_withoutLastRun (cs : List Char) : EndsClear (withoutLastRun cs) := by
  intro c hc
  rw [withoutLastRun, List.getLast?_reverse] at hc
  exact startsClear_dropWhile cs.reverse c hc

theorem lastRun_append {w : List Char} (hw : IsRun w) (a : List Char) :
    lastRun (a ++ w) = lastRun a ++ w := by
  have hw : ∀ c ∈ w.reverse, (!isBlank c) = true := by
    intro c hc
    simp [hw c (List.mem_reverse.1 hc)]
  rw [lastRun, lastRun, List.reverse_append, List.takeWhile_append_of_pos hw]
  simp

theorem lastRun_of_endsClear {a : List Char} (ha : EndsClear a) : lastRun a = [] := by
  rw [lastRun, List.reverse_eq_nil_iff]
  cases h : a.reverse with
  | nil => rfl
  | cons c cs =>
    have hc : isBlank c = true := by
      apply ha c
      rw [← List.reverse_reverse a, h, List.getLast?_reverse]
      rfl
    simp [hc]

theorem withoutLastRun_of_endsClear {a : List Char} (ha : EndsClear a) : withoutLastRun a = a := by
  have h := withoutLastRun_append_lastRun a
  rwa [lastRun_of_endsClear ha, List.append_nil] at h

theorem withoutLastRun_of_isRun {w : List Char} (hw : IsRun w) : withoutLastRun w = [] := by
  rw [withoutLastRun, List.reverse_eq_nil_iff, List.dropWhile_eq_nil_iff]
  intro c hc
  simp [hw c (List.mem_reverse.1 hc)]

/-- A text that begins clear still does so without the run at its end. -/
theorem startsClear_withoutLastRun {cs : List Char} (h : StartsClear cs) :
    StartsClear (withoutLastRun cs) := by
  intro c hc
  apply h c
  rw [← withoutLastRun_append_lastRun cs, List.head?_append, Option.mem_def.1 hc]
  rfl

theorem dropWhile_of_startsClear {cs : List Char} (h : StartsClear cs) :
    cs.dropWhile (!isBlank ·) = cs := by
  cases cs with
  | nil => rfl
  | cons c cs => simp [startsClear_cons.1 h]

/-! ## Free tokens -/

/-- The text without the runs that touch the slots beside it. -/
def inner (afterSlot beforeSlot : Bool) (cs : List Char) : List Char :=
  let cs := if beforeSlot then withoutLastRun cs else cs
  if afterSlot then cs.dropWhile (!isBlank ·) else cs

/-- Taking the last word away unless the text ends in white space is taking the last run away. -/
theorem words_withoutLastRun (cs : List Char) :
    words (withoutLastRun cs) =
      if !(cs.getLast?.map isBlank).getD false then (words cs).dropLast else words cs := by
  cases hlast : cs.getLast? with
  | none =>
    obtain rfl := List.getLast?_eq_none_iff.1 hlast
    rfl
  | some c =>
    cases hc : isBlank c with
    | true =>
      have hcs : EndsClear cs := by
        intro d hd
        rw [hlast] at hd
        exact Option.mem_some_iff.1 hd ▸ hc
      simp [withoutLastRun_of_endsClear hcs, hc]
    | false =>
      -- the run at the end is a word of its own
      have hne : lastRun cs ≠ [] := by
        intro h
        have hcs := endsClear_withoutLastRun cs
        have happ := withoutLastRun_append_lastRun cs
        rw [h, List.append_nil] at happ
        rw [happ] at hcs
        simp [hcs c hlast] at hc
      have hwords : words cs = words (withoutLastRun cs) ++ [lastRun cs] := by
        rw [← words_append_run (endsClear_withoutLastRun cs) (isRun_lastRun cs) hne,
          withoutLastRun_append_lastRun]
      simp [hwords, hc]

/-- Taking the first word away unless the text begins with white space is taking the first run
away. -/
theorem words_dropWhile (cs : List Char) :
    words (cs.dropWhile (!isBlank ·)) =
      if !(cs.head?.map isBlank).getD false then (words cs).drop 1 else words cs := by
  cases cs with
  | nil => rfl
  | cons c cs =>
    cases hc : isBlank c with
    | true => simp [hc]
    | false => simp [hc, words_cons_of_not_isBlank hc]

theorem inner_prefix (beforeSlot : Bool) (cs : List Char) : inner false beforeSlot cs <+: cs := by
  cases beforeSlot with
  | false => simp [inner]
  | true => exact ⟨lastRun cs, withoutLastRun_append_lastRun cs⟩

/-- **The free tokens of a static text** are the words of its inner text. -/
theorem freeTokens_eq (text : String) (afterSlot beforeSlot : Bool) :
    freeTokens text afterSlot beforeSlot =
      (words (inner afterSlot beforeSlot text.toList)).map String.ofList := by
  have hlast : (if beforeSlot && !(text.toList.getLast?.map isBlank).getD false then
      (classTokens text).dropLast else classTokens text) =
        (words (inner false beforeSlot text.toList)).map String.ofList := by
    cases beforeSlot with
    | false => simp [inner, classTokens]
    | true =>
      have hinner : inner false true text.toList = withoutLastRun text.toList := by simp [inner]
      rw [hinner, words_withoutLastRun, Bool.true_and, classTokens]
      split
      · rw [List.map_dropLast]
      · rfl
  rw [freeTokens, hlast]
  cases afterSlot with
  | false => simp
  | true =>
    obtain ⟨rest, hrest⟩ := inner_prefix beforeSlot text.toList
    have hinner : inner true beforeSlot text.toList =
        (inner false beforeSlot text.toList).dropWhile (!isBlank ·) := by simp [inner]
    rw [hinner, words_dropWhile, Bool.true_and]
    cases hcs : inner false beforeSlot text.toList with
    | nil => simp [words]
    | cons c cs =>
      -- an inner text that is not empty begins as the whole text does
      have hhead : text.toList.head? = some c := by rw [← hrest, hcs]; rfl
      rw [hhead, List.head?_cons]
      split
      · rw [List.map_drop]
      · rfl

/-- White space in the text keeps the run at the end behind it. -/
theorem withoutLastRun_append {y : List Char} (hy : StartsClear y) (hne : y ≠ []) (x : List Char) :
    withoutLastRun (x ++ y) = x ++ withoutLastRun y := by
  obtain ⟨c, cs, rfl⟩ := List.exists_cons_of_ne_nil hne
  have hdrop : (c :: cs).reverse.dropWhile (!isBlank ·) ≠ [] := by
    intro h
    have := List.dropWhile_eq_nil_iff.1 h c (by simp)
    simp [startsClear_cons.1 hy] at this
  rw [withoutLastRun, List.reverse_append, List.dropWhile_append, if_neg (by simpa using hdrop),
    List.reverse_append, List.reverse_reverse]
  rfl

/-- White space in the text keeps the run at the start in front of it. -/
theorem dropWhile_append_of_endsClear {x : List Char} (hx : EndsClear x) (hne : x ≠ [])
    (y : List Char) :
    (x ++ y).dropWhile (!isBlank ·) = x.dropWhile (!isBlank ·) ++ y := by
  have hdrop : x.dropWhile (!isBlank ·) ≠ [] := by
    intro h
    have := List.dropWhile_eq_nil_iff.1 h (x.getLast hne) (List.getLast_mem hne)
    simp [hx _ (List.getLast?_eq_some_getLast hne)] at this
  rw [List.dropWhile_append, if_neg (by simpa using hdrop)]

/-- **A word that touches no slot is a word of the inner text**: where there is a slot, there is
something between it and the word. -/
theorem mem_words_inner {afterSlot beforeSlot : Bool} {a w b : List Char} (hw : IsRun w)
    (hne : w ≠ []) (ha : EndsClear a) (hb : StartsClear b) (hafter : afterSlot = true → a ≠ [])
    (hbefore : beforeSlot = true → b ≠ []) :
    w ∈ words (inner afterSlot beforeSlot (a ++ (w ++ b))) := by
  have hback : ∃ b', inner false beforeSlot (a ++ (w ++ b)) = a ++ (w ++ b') ∧ StartsClear b' := by
    cases beforeSlot with
    | false => exact ⟨b, by simp [inner], hb⟩
    | true =>
      refine ⟨withoutLastRun b, ?_, startsClear_withoutLastRun hb⟩
      rw [← List.append_assoc, ← List.append_assoc, ← withoutLastRun_append hb (hbefore rfl)]
      simp [inner]
  obtain ⟨b', hinner, hb'⟩ := hback
  have hfront : ∃ a', inner afterSlot beforeSlot (a ++ (w ++ b)) = a' ++ (w ++ b') ∧
      EndsClear a' := by
    cases afterSlot with
    | false => exact ⟨a, hinner, ha⟩
    | true =>
      refine ⟨a.dropWhile (!isBlank ·), ?_, ?_⟩
      · rw [← dropWhile_append_of_endsClear ha (hafter rfl), ← hinner]
        simp [inner]
      · rw [← List.takeWhile_append_dropWhile (p := (!isBlank ·)) (l := a)] at ha
        exact ha.of_append
  obtain ⟨a', hinner', ha'⟩ := hfront
  exact mem_words_iff.2 ⟨hne, hw, a', b', by rw [hinner', List.append_assoc], ha', hb'⟩

/-! ## The prefix of a slot -/

/-- A text that ends in a run and a hyphen. -/
def EndsInPrefix (cs : List Char) : Prop :=
  ∃ a w, cs = a ++ w ++ ['-'] ∧ w ≠ [] ∧ IsRun w

theorem endsInPrefix_iff (cs : List Char) :
    EndsInPrefix cs ↔ 2 ≤ (lastRun cs).length ∧ (lastRun cs).getLast? = some '-' := by
  constructor
  · rintro ⟨a, w, rfl, hne, hw⟩
    have hrun : IsRun (w ++ ['-']) := by
      intro c hc
      rcases List.mem_append.1 hc with hc | hc
      · exact hw c hc
      · obtain rfl := List.mem_singleton.1 hc
        rfl
    have hpos := List.length_pos_iff.2 hne
    rw [List.append_assoc, lastRun_append hrun, List.length_append, List.length_append,
      List.length_singleton]
    exact ⟨by omega, by simp⟩
  · rintro ⟨hlen, hlast⟩
    obtain ⟨w, hw⟩ := List.getLast?_eq_some_iff.1 hlast
    refine ⟨withoutLastRun cs, w, ?_, ?_, ?_⟩
    · rw [List.append_assoc, ← hw, withoutLastRun_append_lastRun]
    · rintro rfl
      simp [hw] at hlen
    · intro c hc
      exact isRun_lastRun cs c (hw ▸ List.mem_append_left _ hc)

instance (cs : List Char) : Decidable (EndsInPrefix cs) :=
  decidable_of_iff _ (endsInPrefix_iff cs).symm

theorem inferPrefix_of_endsInPrefix {text : String} (h : EndsInPrefix text.toList) :
    inferPrefix text = some (String.ofList (lastRun text.toList)) :=
  if_pos ((endsInPrefix_iff _).1 h)

theorem inferPrefix_of_not_endsInPrefix {text : String} (h : ¬EndsInPrefix text.toList) :
    inferPrefix text = none :=
  if_neg fun hp => h ((endsInPrefix_iff _).2 hp)

end GlyphTrim.ClassName
