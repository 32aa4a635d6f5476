import Mathlib.Data.List.Infix
import GlyphTrim.Proofs.ClassName.Template
import GlyphTrim.Proofs.Text.PlacedWords

/-!
# The partition of a static text

A static text of a template is parted by its words at their places: the words that touch a slot
belong to the slot, and all others are free tokens (`freeTokens_eq_map`). The prefix of a slot is
the leftmost match of a pattern (`inferPrefix_eq_leftmostStart`), and it is the word that touches
the slot (`getLast?_placedWords_of_inferPrefix`). So each word is a free token, or a part of a
dynamic name, and never both.
-/

namespace GlyphTrim.ClassName

open Text

/-! ## Free tokens at their places -/

/-- The word touches the slot in front of the static text or the one behind it. -/
def TouchesSlot (afterSlot beforeSlot : Bool) (p : PlacedWord) : Prop :=
  afterSlot = true ∧ p.front = [] ∨ beforeSlot = true ∧ p.back = []

instance (afterSlot beforeSlot : Bool) : DecidablePred (TouchesSlot afterSlot beforeSlot) :=
  fun p => inferInstanceAs
    (Decidable (afterSlot = true ∧ p.front = [] ∨ beforeSlot = true ∧ p.back = []))

/-- The words of a static text that touch no slot. -/
def freeWords (afterSlot beforeSlot : Bool) (cs : List Char) : List PlacedWord :=
  (placedWords cs).filter (¬TouchesSlot afterSlot beforeSlot ·)

variable {text : String} {cs : List Char} {afterSlot beforeSlot : Bool}

theorem classTokens_eq_map (text : String) :
    classTokens text = (placedWords text.toList).map (String.ofList ·.word) := by
  rw [classTokens, ← map_word_placedWords, List.map_map]
  rfl

/-- The slot behind the text takes the last word, unless the text ends clear. -/
theorem freeWords_false_true (cs : List Char) : freeWords false true cs =
    if EndsClear cs then placedWords cs else (placedWords cs).dropLast := by
  have hfilter : freeWords false true cs = (placedWords cs).filter (·.back ≠ []) := by
    simp [freeWords, TouchesSlot]
  rw [hfilter, placedWords, filter_back_placedFrom]

theorem freeWords_false_eq (cs : List Char) (beforeSlot : Bool) :
    freeWords false beforeSlot cs =
      if beforeSlot && !(cs.getLast?.map isBlank).getD false then (placedWords cs).dropLast
      else placedWords cs := by
  cases beforeSlot with
  | false => simp [freeWords, TouchesSlot]
  | true =>
    rw [freeWords_false_true]
    cases hlast : cs.getLast? with
    | none =>
      obtain rfl := List.getLast?_eq_none_iff.1 hlast
      rfl
    | some c =>
      have hclear : EndsClear cs ↔ isBlank c = true := by simp [EndsClear, hlast]
      cases hc : isBlank c <;> simp [hclear, hc]

/-- The slot in front of the text takes the first word, unless white space is between them. -/
theorem freeWords_true_eq (cs : List Char) (beforeSlot : Bool) :
    freeWords true beforeSlot cs =
      if !(cs.head?.map isBlank).getD false then (freeWords false beforeSlot cs).drop 1
      else freeWords false beforeSlot cs := by
  have hsplit : ∀ found : List PlacedWord, found.filter (¬TouchesSlot true beforeSlot ·) =
      (found.filter (·.front ≠ [])).filter (¬TouchesSlot false beforeSlot ·) := by
    intro found
    rw [List.filter_filter]
    refine List.filter_congr fun p _ => ?_
    simp [TouchesSlot, Bool.and_comm]
  rw [freeWords, hsplit]
  cases cs with
  | nil => rfl
  | cons c cs =>
    have hne : [c] ≠ [] := List.cons_ne_nil c []
    cases hc : isBlank c with
    | true =>
      have hplaced : placedWords (c :: cs) = placedFrom [c] cs := by
        rw [placedWords, placedFrom, if_neg (by simp [hc])]
        rfl
      rw [freeWords, hplaced, filter_front_placedFrom hne]
      simp [hc]
    | false =>
      have hplaced : placedWords (c :: cs) =
          ⟨[], c :: cs.takeWhile (!isBlank ·), cs.dropWhile (!isBlank ·)⟩ ::
            placedFrom [c] cs := by
        rw [placedWords, placedFrom, if_pos ⟨hc, endsClear_nil⟩]
        rfl
      rw [freeWords, hplaced, List.filter_cons_of_neg (by simp), filter_front_placedFrom hne]
      -- a first word that touches the slot behind the text is the only one
      by_cases htouch : TouchesSlot false beforeSlot
          ⟨[], c :: cs.takeWhile (!isBlank ·), cs.dropWhile (!isBlank ·)⟩
      · have hback : cs.dropWhile (!isBlank ·) = [] := (Or.resolve_left htouch (by simp)).2
        have hnil : placedFrom [c] cs = [] := placedFrom_eq_nil hc hback []
        simp [hnil, htouch]
      · simp [hc, htouch]

/-- **The free tokens of a static text** are its words that touch no slot. -/
theorem freeTokens_eq_map (text : String) (afterSlot beforeSlot : Bool) :
    freeTokens text afterSlot beforeSlot =
      (freeWords afterSlot beforeSlot text.toList).map (String.ofList ·.word) := by
  have hlast : (if beforeSlot && !(text.toList.getLast?.map isBlank).getD false then
      (classTokens text).dropLast else classTokens text) =
        (freeWords false beforeSlot text.toList).map (String.ofList ·.word) := by
    rw [freeWords_false_eq, classTokens_eq_map]
    split
    · rw [List.map_dropLast]
    · rfl
  rw [freeTokens, hlast]
  cases afterSlot with
  | false => simp
  | true =>
    rw [freeWords_true_eq, Bool.true_and]
    split
    · rw [List.map_drop]
    · rfl

/-! ## The prefix as a match -/

/-- The texts that the pattern `\S+-` matches. -/
def IsStart (w : List Char) : Prop := ∃ r, w = r ++ ['-'] ∧ r ≠ [] ∧ IsRun r

theorem isStart_iff {w : List Char} :
    IsStart w ↔ IsRun w ∧ 2 ≤ w.length ∧ w.getLast? = some '-' := by
  constructor
  · rintro ⟨r, rfl, hne, hr⟩
    have hpos := List.length_pos_iff.2 hne
    refine ⟨fun c hc => ?_, by rw [List.length_append, List.length_singleton]; omega, by simp⟩
    rcases List.mem_append.1 hc with hc | hc
    · exact hr c hc
    · obtain rfl := List.mem_singleton.1 hc
      rfl
  · rintro ⟨hw, hlen, hlast⟩
    obtain ⟨r, rfl⟩ := List.getLast?_eq_some_iff.1 hlast
    refine ⟨r, rfl, ?_, fun c hc => hw c (List.mem_append_left _ hc)⟩
    rintro rfl
    exact absurd hlen (by simp)

instance (w : List Char) : Decidable (IsStart w) :=
  decidable_of_iff (IsRun w ∧ 2 ≤ w.length ∧ w.getLast? = some '-') isStart_iff.symm

/-- The leftmost match of the pattern `\S+-$`: the first place from the left where the rest of the
text is a match. -/
def leftmostStart (cs : List Char) : Option (List Char) := cs.tails.find? (IsStart ·)

/-- The longest end of a text without white space. -/
structure IsLastRun (w cs : List Char) : Prop where
  isSuffix : w <:+ cs
  isRun : IsRun w
  longest : ∀ v, v <:+ cs → IsRun v → v <:+ w

theorem isLastRun_lastRun (cs : List Char) : IsLastRun (lastRun cs) cs where
  isSuffix := ⟨withoutLastRun cs, withoutLastRun_append_lastRun cs⟩
  isRun := isRun_lastRun cs
  longest := by
    rintro v ⟨a, rfl⟩ hv
    rw [lastRun_append hv]
    exact List.suffix_append _ _

theorem isLastRun_iff {w : List Char} : IsLastRun w cs ↔ lastRun cs = w := by
  constructor
  · intro h
    have hlast := isLastRun_lastRun cs
    exact (h.longest _ hlast.isSuffix hlast.isRun).eq_of_length_le
      (hlast.longest _ h.isSuffix h.isRun).length_le
  · rintro rfl
    exact isLastRun_lastRun cs

theorem lastRun_of_isRun (h : IsRun cs) : lastRun cs = cs :=
  isLastRun_iff.1 ⟨List.suffix_rfl, h, fun _ hv _ => hv⟩

theorem lastRun_cons_of_not_isRun {c : Char} (h : ¬IsRun (c :: cs)) :
    lastRun (c :: cs) = lastRun cs := by
  have hlast := isLastRun_lastRun cs
  refine isLastRun_iff.1 ⟨hlast.isSuffix.trans (List.suffix_cons c cs), hlast.isRun, ?_⟩
  intro v hv hrun
  rcases List.suffix_cons_iff.1 hv with rfl | hv
  · exact absurd hrun h
  · exact hlast.longest v hv hrun

/-- The leftmost match begins where the last run does. -/
theorem leftmostStart_eq (cs : List Char) :
    leftmostStart cs = if IsStart (lastRun cs) then some (lastRun cs) else none := by
  induction cs with
  | nil => rfl
  | cons c cs ih =>
    have htails : leftmostStart (c :: cs) =
        if IsStart (c :: cs) then some (c :: cs) else leftmostStart cs := by
      rw [leftmostStart, List.tails_cons, List.find?_cons]
      by_cases h : IsStart (c :: cs) <;> simp [h, leftmostStart]
    rw [htails, ih]
    by_cases hrun : IsRun (c :: cs)
    · rw [lastRun_of_isRun hrun, lastRun_of_isRun hrun.tail]
      split
      · rfl
      · rename_i hstart
        -- a match behind the character would go on to it
        refine if_neg fun h => hstart (isStart_iff.2 ⟨hrun, ?_⟩)
        obtain ⟨-, hlen, hlast⟩ := isStart_iff.1 h
        rw [List.getLast?_cons_of_ne_nil (by rintro rfl; simp at hlen), List.length_cons]
        exact ⟨by omega, hlast⟩
    · rw [lastRun_cons_of_not_isRun hrun, if_neg fun h => hrun (isStart_iff.1 h).1]

/-- **The prefix of a slot** is the leftmost match. -/
theorem inferPrefix_eq_leftmostStart (text : String) :
    inferPrefix text = (leftmostStart text.toList).map String.ofList := by
  have hiff : IsStart (lastRun text.toList) ↔
      2 ≤ (lastRun text.toList).length ∧ (lastRun text.toList).getLast? = some '-' := by
    rw [isStart_iff]
    exact and_iff_right (isRun_lastRun _)
  rw [leftmostStart_eq, inferPrefix]
  simp only [hiff]
  split <;> rfl

/-- **The prefix of a slot** is the longest end of the text without white space, if that has two
characters or more and ends in a hyphen. -/
theorem inferPrefix_eq_some_iff {w : String} : inferPrefix text = some w ↔
    IsLastRun w.toList text.toList ∧ 2 ≤ w.length ∧ w.toList.getLast? = some '-' := by
  rw [isLastRun_iff, inferPrefix]
  constructor
  · intro h
    split at h
    · rename_i hstart
      obtain rfl := Option.some.inj h
      simpa using hstart
    · exact absurd h (by simp)
  · rintro ⟨hlast, hlen, hhyphen⟩
    have hstart : 2 ≤ (lastRun text.toList).length ∧
        (lastRun text.toList).getLast? = some '-' := by
      rw [hlast]
      exact ⟨by rwa [String.length_toList], hhyphen⟩
    simp only [hlast] at hstart ⊢
    rw [if_pos hstart, String.ofList_toList]

/-! ## The prefix at its place -/

section

variable {w : String} (h : inferPrefix text = some w)

include h

theorem toList_ne_nil_of_inferPrefix : w.toList ≠ [] := by
  intro hnil
  exact absurd (inferPrefix_eq_some_iff.1 h).2.2 (by simp [hnil])

theorem not_endsClear_of_inferPrefix : ¬EndsClear text.toList := by
  intro hclear
  have hlast := isLastRun_iff.1 (inferPrefix_eq_some_iff.1 h).1
  exact toList_ne_nil_of_inferPrefix h (hlast.symm.trans (lastRun_of_endsClear hclear))

/-- **The prefix of a slot** is the last word of the text, and it touches the slot. -/
theorem getLast?_placedWords_of_inferPrefix :
    (placedWords text.toList).getLast? = some ⟨withoutLastRun text.toList, w.toList, []⟩ := by
  have hlast := (inferPrefix_eq_some_iff.1 h).1
  have hmem : ⟨withoutLastRun text.toList, w.toList, []⟩ ∈ placedWords text.toList := by
    rw [mem_placedWords_iff]
    refine ⟨?_, toList_ne_nil_of_inferPrefix h, hlast.isRun, endsClear_withoutLastRun _,
      startsClear_nil⟩
    rw [← isLastRun_iff.1 hlast, List.append_nil, withoutLastRun_append_lastRun]
  -- all words but the last one have something behind them
  have hdrop := freeWords_false_true text.toList
  rw [if_neg (not_endsClear_of_inferPrefix h), freeWords] at hdrop
  obtain ⟨others, p, hp⟩ :=
    (List.eq_nil_or_concat' (placedWords text.toList)).resolve_left (List.ne_nil_of_mem hmem)
  rw [hp] at hmem hdrop ⊢
  rw [List.dropLast_concat] at hdrop
  rcases List.mem_append.1 hmem with hmem | hmem
  · rw [← hdrop] at hmem
    exact absurd hmem (by simp [TouchesSlot])
  · rw [List.mem_singleton.1 hmem]
    simp

/-- In front of a slot with a prefix the other tokens are free, but for the first one if it touches
the slot in front of the text. -/
theorem exists_classTokens_eq_concat :
    ∃ others, classTokens text = others ++ [w] ∧ ∀ afterSlot, freeTokens text afterSlot true =
      if afterSlot = true ∧ ¬StartsClear text.toList then others.drop 1 else others := by
  obtain ⟨others, hothers⟩ := List.getLast?_eq_some_iff.1 (getLast?_placedWords_of_inferPrefix h)
  have hclear := not_endsClear_of_inferPrefix h
  have hfree : freeWords false true text.toList = others := by
    rw [freeWords_false_true, if_neg hclear, hothers, List.dropLast_concat]
  refine ⟨others.map (String.ofList ·.word), ?_, fun afterSlot => ?_⟩
  · rw [classTokens_eq_map, hothers, List.map_append]
    simp
  · rw [freeTokens_eq_map]
    cases afterSlot with
    | false => simp [hfree]
    | true =>
      rw [freeWords_true_eq, hfree]
      cases hcs : text.toList with
      | nil => exact absurd endsClear_nil (hcs ▸ hclear)
      | cons c cs => cases hc : isBlank c <;> simp [hc, startsClear_cons]

end

/-- **The partition of a static text.** The words of the text at their places are its tokens in
order, and those that touch no slot are its free tokens. The prefix of a slot is the leftmost match
of the pattern `\S+-$`: the longest end of the text without white space, if that has two characters
or more and ends in a hyphen. It is the last token and touches the slot, so it is not free, and in
front of the slot all tokens but the prefix are free, except for the first one if it touches the
slot in front of the text. -/
theorem partition_placedWords (text : String) :
    let cs := text.toList
    (∀ p, p ∈ placedWords cs ↔ p.StandsIn cs) ∧
    (placedWords cs).Pairwise (·.front.length < ·.front.length) ∧
    classTokens text = (placedWords cs).map (String.ofList ·.word) ∧
    (∀ afterSlot beforeSlot, freeTokens text afterSlot beforeSlot =
      ((placedWords cs).filter (¬TouchesSlot afterSlot beforeSlot ·)).map
        (String.ofList ·.word)) ∧
    inferPrefix text = (leftmostStart cs).map String.ofList ∧
    ∀ w : String,
      (inferPrefix text = some w ↔
        IsLastRun w.toList cs ∧ 2 ≤ w.length ∧ w.toList.getLast? = some '-') ∧
      (inferPrefix text = some w →
        (∃ p, (placedWords cs).getLast? = some p ∧ p.word = w.toList ∧
          ∀ afterSlot, TouchesSlot afterSlot true p) ∧
        ∃ others, classTokens text = others ++ [w] ∧ ∀ afterSlot, freeTokens text afterSlot true =
          if afterSlot = true ∧ ¬StartsClear cs then others.drop 1 else others) := by
  refine ⟨fun p => mem_placedWords_iff, pairwise_placedWords _, classTokens_eq_map text,
    freeTokens_eq_map text, inferPrefix_eq_leftmostStart text, fun w => ?_⟩
  refine ⟨inferPrefix_eq_some_iff, fun h => ⟨?_, exists_classTokens_eq_concat h⟩⟩
  exact ⟨_, getLast?_placedWords_of_inferPrefix h, rfl, fun afterSlot => .inr ⟨rfl, rfl⟩⟩

/-- A text in which a free token and a prefix are the same word at two places. -/
theorem partition_placedWords_twiceWritten :
    inferPrefix "icon- icon-" = some "icon-" ∧
      (∃ p, (placedWords "icon- icon-".toList).getLast? = some p ∧ p.word = "icon-".toList ∧
        ∀ afterSlot, TouchesSlot afterSlot true p) ∧
      freeTokens "icon- icon-" false true = ["icon-"] ∧
      freeTokens "icon- icon-" true true = [] := by
  have hinfer : inferPrefix "icon- icon-" = some "icon-" := by decide
  obtain ⟨-, -, -, -, -, hstart⟩ := partition_placedWords "icon- icon-"
  obtain ⟨hplace, others, htokens, hfree⟩ := (hstart "icon-").2 hinfer
  have hothers : others = ["icon-"] := by
    have hboth : classTokens "icon- icon-" = ["icon-"] ++ ["icon-"] := by decide
    exact List.append_cancel_right (htokens.symm.trans hboth)
  refine ⟨hinfer, hplace, ?_, ?_⟩ <;> rw [hfree, hothers] <;> decide

end GlyphTrim.ClassName
