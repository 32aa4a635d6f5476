import Mathlib.Data.List.Basic
import GlyphTrim.Proofs.ClassName.Evaluation
import GlyphTrim.Proofs.ClassName.Resolution

/-!
# Where resolution keeps every word

A slot of a template can be glued to the text beside it, or to another slot. In front of it the
resolution follows the glue only if the text there ends in a prefix, and behind it never: there a
run of the template has a *seam*. `Runs e m` is the evaluation of `e` with its seams marked
(`yields_iff_exists_runs` says that it is the evaluation).

If nothing is unknown, a token of a run can be lost in two ways only (`mem_values_of_runs`): a seam
is inside it, or it is static text that is glued to a slot and is no prefix of one. Both do happen
(`not_forall_words_mem_values`). A token in a slot is kept whatever the slot is glued to, and so is
a prefix that is glued to the slot in front of it.
-/

namespace GlyphTrim.ClassName

open Text Tsx

/-- An expression that is put together from strings, conditions and templates. -/
inductive IsText : Expr → Prop
  | string (place : Nat) (value : String) : IsText (.string place value)
  | wrapped {e : Expr} (place : Nat) (how : Wrapper) (types : List Node) (h : IsText e) :
      IsText (.wrapped place how e types)
  | conditional {yes no : Expr} (place : Nat) (test : Expr) (hy : IsText yes) (hn : IsText no) :
      IsText (.conditional place test yes no)
  | template {spans : List Span} (place : Nat) (head : String)
      (h : ∀ slot tail, Span.mk slot tail ∈ spans → IsText slot) :
      IsText (.template place head spans)

/-! ## Runs with their seams -/

/-- What a run is made of: its characters, and marks at its seams. The mark `glue` stands beside
static text that is glued to a slot and is no prefix of one; anything else at a seam has the mark
`seam` beside it. -/
inductive Cell
  | char (c : Char)
  | seam
  | glue
  deriving DecidableEq

/-- The character, unless the cell is a mark. -/
def Cell.char? : Cell → Option Char
  | .char c => some c
  | .seam | .glue => none

/-- The cells of a text. -/
def cells (cs : List Char) : List Cell := cs.map .char

/-- The text between two slots is nothing but the prefix of the second one. -/
def IsSlotPrefix (tail : String) (rest : List Span) : Prop :=
  rest.isEmpty = false ∧ tail.toList.all (!isBlank ·) = true ∧ EndsInPrefix tail.toList

instance (tail : String) (rest : List Span) : Decidable (IsSlotPrefix tail rest) :=
  inferInstanceAs (Decidable (_ ∧ _ ∧ _))

/-- The marks between a text and the slot behind it. -/
def marksInFront (first : Bool) (before : String) : List Cell :=
  if OpensSlot first before then [] else if before = "" then [.seam] else [.glue, .seam]

/-- The marks between a slot and the text behind it. -/
def marksBehind (tail : String) (rest : List Span) : List Cell :=
  if ClosesSlot tail rest then []
  else if tail = "" ∨ IsSlotPrefix tail rest then [.seam]
  else [.seam, .glue]

mutual

/-- A run of the expression gives these characters, with these marks. -/
def Runs : Expr → List Cell → Prop
  | .string _ value, m => m = cells value.toList
  | .wrapped _ _ e _, m => Runs e m
  | .conditional _ _ yes no, m => Runs yes m ∨ Runs no m
  | .template _ head spans, m => ∃ r, SpansRun true head spans r ∧ m = cells head.toList ++ r
  | _, _ => False

/-- A run of the slots, each with the text after it. `before` is the text before, and `first` tells
that the template begins with it. -/
def SpansRun : Bool → String → List Span → List Cell → Prop
  | _, _, [], m => m = []
  | first, before, .mk slot tail :: rest, m =>
    ∃ v r, Runs slot v ∧ SpansRun false tail rest r ∧
      m = marksInFront first before ++
        (v ++ (marksBehind tail rest ++ (cells tail.toList ++ r)))

end

/-- The characters of a run. -/
def chars (m : List Cell) : List Char := m.filterMap Cell.char?

/-- The cells `x` are a token of the run `a ++ x ++ b`: they begin and end with a character, there
is no white space among them, and on both sides the next character is white space or there is
none. -/
structure IsTokenAt (a x b : List Cell) : Prop where
  begins : ∃ c, x.head? = some (.char c)
  ends : ∃ c, x.getLast? = some (.char c)
  isRun : IsRun (chars x)
  front : EndsClear (chars a)
  behind : StartsClear (chars b)

/-- A token of a run that resolution need not know: a seam is inside it, or it is static text that
is glued to a slot and is no prefix of one. -/
def Glued (a x b : List Cell) : Prop :=
  (∃ k ∈ x, k.char? = none) ∨ a.getLast? = some .glue ∨ b.head? = some .glue

/-! ## Words of runs put together -/

/-- What may stand beside a word that is known: anything but a character that is no white space and
the mark of static text that is glued. -/
def ClearBeside : Option Cell → Prop
  | none | some .seam => True
  | some .glue => False
  | some (.char c) => isBlank c = true

/-- The characters stand together in the run, without a mark among them, and what is beside them is
clear. They may be a part of a token that a seam cuts off. -/
def IsWordOf (w : List Char) (m : List Cell) : Prop :=
  w ≠ [] ∧ IsRun w ∧
    ∃ a b, m = a ++ (cells w ++ b) ∧ ClearBeside a.getLast? ∧ ClearBeside b.head?

theorem char?_of_mem_cells {cs : List Char} {k : Cell} (h : k ∈ cells cs) : k.char? ≠ none := by
  obtain ⟨c, -, rfl⟩ := List.mem_map.1 h
  simp [Cell.char?]

theorem cells_injective : Function.Injective cells :=
  List.map_injective_iff.2 fun _ _ => Cell.char.inj

theorem ClearBeside.of_getLast?_append {x a : List Cell} (h : ClearBeside (x ++ a).getLast?) :
    ClearBeside a.getLast? := by
  cases ha : a.getLast? with
  | none => trivial
  | some d => simpa [List.getLast?_append, ha] using h

theorem ClearBeside.of_head?_append {b y : List Cell} (h : ClearBeside (b ++ y).head?) :
    ClearBeside b.head? := by
  cases b with
  | nil => trivial
  | cons d b => exact h

/-- Two runs meet without cutting a word: where they meet, one has white space, a mark or its
end. -/
def Meet (x y : List Cell) : Prop :=
  ∀ c d, x.getLast? = some (.char c) → y.head? = some (.char d) →
    isBlank c = true ∨ isBlank d = true

/-- A word of two runs that meet without cutting a word belongs to one of them. -/
theorem IsWordOf.of_append {w : List Char} {x y : List Cell} (h : IsWordOf w (x ++ y))
    (hxy : Meet x y) : IsWordOf w x ∨ IsWordOf w y := by
  obtain ⟨hne, hw, a, b, hab, ha, hb⟩ := h
  rcases List.append_eq_append_iff.1 hab with ⟨a', rfl, rfl⟩ | ⟨c', rfl, hc⟩
  · exact .inr ⟨hne, hw, a', b, rfl, ha.of_getLast?_append, hb⟩
  rcases List.append_eq_append_iff.1 hc with ⟨e, rfl, rfl⟩ | ⟨e, hwe, rfl⟩
  · exact .inl ⟨hne, hw, a, e, rfl, ha, hb.of_head?_append⟩
  -- the place where the runs meet is in the word or at one of its ends
  obtain ⟨w₁, w₂, rfl, rfl, rfl⟩ := List.map_eq_append_iff.1 hwe
  rcases w₁.eq_nil_or_concat with rfl | ⟨w₁, c, rfl⟩
  · exact .inr ⟨hne, hw, [], b, rfl, trivial, hb⟩
  cases w₂ with
  | nil => exact .inl ⟨hne, hw, a, [], by simp [cells], ha, trivial⟩
  | cons d w₂ =>
    have hc : isBlank c = false := hw c (by simp)
    have hd : isBlank d = false := hw d (by simp)
    have := hxy c d (by simp) (by simp)
    simp [hc, hd] at this

/-- A word is on one side of a mark. -/
theorem IsWordOf.of_mark {w : List Char} {x y : List Cell} {k : Cell} (hk : k.char? = none)
    (h : IsWordOf w (x ++ k :: y)) : IsWordOf w (x ++ [k]) ∨ IsWordOf w (k :: y) := by
  obtain ⟨hne, hw, a, b, hab, ha, hb⟩ := h
  rcases List.append_eq_append_iff.1 hab with ⟨a', rfl, hy⟩ | ⟨c', rfl, hc⟩
  · exact .inr ⟨hne, hw, a', b, hy, ha.of_getLast?_append, hb⟩
  rcases List.append_eq_append_iff.1 hc with ⟨e, rfl, rfl⟩ | ⟨e, hwe, hy⟩
  · refine .inl ⟨hne, hw, a, e ++ [k], by simp, ha, ?_⟩
    cases e with
    | nil => exact hb
    | cons d e => exact hb
  · cases e with
    | nil =>
      -- the word ends right in front of the mark
      rw [List.nil_append] at hy
      refine .inl ⟨hne, hw, a, [k], by simp [hwe], ha, ?_⟩
      rw [← hy] at hb
      exact hb
    | cons d e =>
      obtain rfl : k = d := (List.cons.inj hy).1
      have hmem : k ∈ cells w := by simp [hwe]
      exact absurd hk (char?_of_mem_cells hmem)

/-- A mark in front of a run is in front of every text in it. -/
theorem exists_eq_cons_of_mark {w : List Char} {m a b : List Cell} {k : Cell}
    (hk : k.char? = none) (hne : w ≠ []) (h : k :: m = a ++ (cells w ++ b)) :
    ∃ a', a = k :: a' ∧ m = a' ++ (cells w ++ b) := by
  cases a with
  | nil =>
    obtain ⟨c, w, rfl⟩ := List.exists_cons_of_ne_nil hne
    obtain rfl : k = .char c := (List.cons.inj h).1
    simp [Cell.char?] at hk
  | cons d a =>
    obtain ⟨rfl, rfl⟩ := List.cons.inj h
    exact ⟨a, rfl, rfl⟩

/-- A mark behind a run is behind every text in it. -/
theorem exists_eq_append_of_mark {w : List Char} {m a b : List Cell} {k : Cell}
    (hk : k.char? = none) (hne : w ≠ []) (h : m ++ [k] = a ++ (cells w ++ b)) :
    ∃ b', b = b' ++ [k] ∧ m = a ++ (cells w ++ b') := by
  rw [← List.append_assoc] at h
  rcases b.eq_nil_or_concat with rfl | ⟨b, d, rfl⟩
  · obtain ⟨w, c, rfl⟩ := (w.eq_nil_or_concat).resolve_left hne
    obtain rfl : k = .char c := by
      have hlast := congrArg List.getLast? h
      simpa [cells] using hlast
    simp [Cell.char?] at hk
  · rw [List.concat_eq_append, ← List.append_assoc] at h
    obtain ⟨rfl, hd⟩ := List.append_inj' h rfl
    obtain rfl : k = d := List.head_eq_of_cons_eq hd
    exact ⟨b, List.concat_eq_append, List.append_assoc ..⟩

/-- A word behind a mark, without the mark. -/
theorem IsWordOf.of_cons_mark {w : List Char} {m : List Cell} {k : Cell} (hk : k.char? = none)
    (h : IsWordOf w (k :: m)) : IsWordOf w m := by
  obtain ⟨hne, hw, a, b, hab, ha, hb⟩ := h
  obtain ⟨a, rfl, hm⟩ := exists_eq_cons_of_mark hk hne hab
  exact ⟨hne, hw, a, b, hm, ha.of_getLast?_append (x := [k]), hb⟩

/-- A word in front of a mark, without the mark. -/
theorem IsWordOf.of_append_mark {w : List Char} {m : List Cell} {k : Cell} (hk : k.char? = none)
    (h : IsWordOf w (m ++ [k])) : IsWordOf w m := by
  obtain ⟨hne, hw, a, b, hab, ha, hb⟩ := h
  obtain ⟨b, rfl, hm⟩ := exists_eq_append_of_mark hk hne hab
  exact ⟨hne, hw, a, b, hm, ha, hb.of_head?_append⟩

theorem clearBeside_getLast?_cells {cs : List Char} :
    ClearBeside (cells cs).getLast? ↔ EndsClear cs := by
  cases h : cs.getLast? <;> simp [cells, EndsClear, ClearBeside, h]

theorem clearBeside_head?_cells {cs : List Char} :
    ClearBeside (cells cs).head? ↔ StartsClear cs := by
  cases cs <;> simp [cells, ClearBeside]

/-- Where a word stands in a text. -/
theorem isWordOf_cells_iff {w cs : List Char} : IsWordOf w (cells cs) ↔ w ∈ words cs := by
  rw [mem_words_iff]
  constructor
  · rintro ⟨hne, hw, a, b, hab, ha, hb⟩
    obtain ⟨a', r, rfl, rfl, hr⟩ := List.map_eq_append_iff.1 hab
    obtain ⟨w', b', rfl, hww, rfl⟩ := List.map_eq_append_iff.1 hr
    obtain rfl := cells_injective hww
    exact ⟨hne, hw, a', b', by simp, clearBeside_getLast?_cells.1 ha, clearBeside_head?_cells.1 hb⟩
  · rintro ⟨hne, hw, a, b, rfl, ha, hb⟩
    exact ⟨hne, hw, cells a, cells b, by simp [cells], clearBeside_getLast?_cells.2 ha,
      clearBeside_head?_cells.2 hb⟩

/-! ## Static texts -/

/-- The mark of a static text that is glued at one side. -/
def glueIf (glued : Bool) : List Cell := if glued then [.glue] else []

theorem exists_in_front {glued : Bool} {w : List Char} {m a b : List Cell} (hne : w ≠ [])
    (h : glueIf glued ++ m = a ++ (cells w ++ b)) (ha : ClearBeside a.getLast?) :
    ∃ a', m = a' ++ (cells w ++ b) ∧ ClearBeside a'.getLast? ∧ (glued = true → a' ≠ []) := by
  cases glued with
  | false => exact ⟨a, h, ha, by simp⟩
  | true =>
    obtain ⟨a, rfl, hm⟩ := exists_eq_cons_of_mark rfl hne h
    refine ⟨a, hm, ha.of_getLast?_append (x := [.glue]), ?_⟩
    rintro - rfl
    exact ha

theorem exists_behind {glued : Bool} {w : List Char} {m a b : List Cell} (hne : w ≠ [])
    (h : m ++ glueIf glued = a ++ (cells w ++ b)) (hb : ClearBeside b.head?) :
    ∃ b', m = a ++ (cells w ++ b') ∧ ClearBeside b'.head? ∧ (glued = true → b' ≠ []) := by
  cases glued with
  | false => exact ⟨b, by simpa [glueIf] using h, hb, by simp⟩
  | true =>
    obtain ⟨b, rfl, hm⟩ := exists_eq_append_of_mark rfl hne h
    refine ⟨b, hm, hb.of_head?_append, ?_⟩
    rintro - rfl
    exact hb

/-- **A word of a text that is not at its glued sides** is a word of its inner text. -/
theorem IsWordOf.mem_words_inner {gluedBefore gluedBehind : Bool} {w cs : List Char}
    (h : IsWordOf w (glueIf gluedBefore ++ (cells cs ++ glueIf gluedBehind))) :
    w ∈ words (inner gluedBefore gluedBehind cs) := by
  obtain ⟨hne, hw, a, b, hab, ha, hb⟩ := h
  obtain ⟨a, hab, ha, hbefore⟩ := exists_in_front hne hab ha
  obtain ⟨b, hab, hb, hbehind⟩ := exists_behind hne hab hb
  obtain ⟨a', r, rfl, rfl, hr⟩ := List.map_eq_append_iff.1 hab
  obtain ⟨w', b', rfl, hww, rfl⟩ := List.map_eq_append_iff.1 hr
  obtain rfl := cells_injective hww
  refine ClassName.mem_words_inner hw hne (clearBeside_getLast?_cells.1 ha)
    (clearBeside_head?_cells.1 hb) (fun hs => ?_) fun hs => ?_
  · simpa using hbefore hs
  · simpa using hbehind hs

/-- `glued` tells rightly whether the text has a mark of glue in front: it has one only behind a
slot, and has none there only if it begins clear or is nothing but a prefix of the next slot. -/
def GlueInFront (glued first : Bool) (before : String) (beforeSlot : Bool) : Prop :=
  glued = !first ∨
    glued = false ∧ (StartsClear before.toList ∨ beforeSlot = true ∧ IsRun before.toList)

theorem freeTokens_of_glueInFront {glued first beforeSlot : Bool} {before : String}
    (h : GlueInFront glued first before beforeSlot) :
    freeTokens before (!first) beforeSlot =
      (words (inner glued beforeSlot before.toList)).map String.ofList := by
  rw [freeTokens_eq]
  rcases h with rfl | ⟨rfl, h⟩
  · rfl
  · cases first with
    | true => rfl
    | false =>
      rcases h with hclear | ⟨rfl, hrun⟩
      · cases beforeSlot with
        | false => simp [inner, dropWhile_of_startsClear hclear]
        | true => simp [inner, dropWhile_of_startsClear (startsClear_withoutLastRun hclear)]
      · simp [inner, withoutLastRun_of_isRun hrun]

/-! ## Slots -/

/-- A slot without anything unknown gives a string, and the resolution knows it with its
prefix. -/
theorem mem_values_resolveSlot {start : String} {e : Expr} {m : List Cell}
    (hknown : (resolveSlot start e).unknowns = []) (hm : Runs e m) :
    ∃ v : String, m = cells v.toList ∧ start ++ v ∈ (resolveSlot start e).values := by
  fun_induction resolveSlot start e with
  | case1 place how e types ih =>
    rw [Runs] at hm
    exact ih hknown hm
  | case2 place value =>
    rw [Runs] at hm
    exact ⟨value, hm, by simp⟩
  | case3 place test yes no ihy ihn =>
    rw [Resolution.unknowns_append, List.append_eq_nil_iff] at hknown
    rw [Runs] at hm
    rw [Resolution.values_append]
    rcases hm with hm | hm
    · obtain ⟨v, hv, hmem⟩ := ihy hknown.1 hm
      exact ⟨v, hv, List.mem_append_left _ hmem⟩
    · obtain ⟨v, hv, hmem⟩ := ihn hknown.2 hm
      exact ⟨v, hv, List.mem_append_right _ hmem⟩
  | case4 e => exact absurd hknown (Resolution.unknowns_ofUnknown_ne_nil e _)

/-- A word in front of a slot or in it: it is a free token of the text in front, or it belongs to
the slot and its prefix. -/
theorem IsWordOf.of_opensSlot {glued first : Bool} {before : String} {w : List Char} {x : List Cell}
    (hglue : GlueInFront glued first before true)
    (h : IsWordOf w (glueIf glued ++
      (cells before.toList ++ (marksInFront first before ++ x)))) :
    String.ofList w ∈ freeTokens before (!first) true ∨
      IsWordOf w (cells ((inferPrefix before).getD "").toList ++ x) := by
  rw [freeTokens_of_glueInFront hglue]
  by_cases hopens : OpensSlot first before
  · have hsplit : glueIf glued ++ (cells before.toList ++ x) =
        (glueIf glued ++ cells (withoutLastRun before.toList)) ++
          (cells (lastRun before.toList) ++ x) := by
      rw [List.append_assoc, ← List.append_assoc (cells _) (cells _), cells, cells, cells,
        ← List.map_append, withoutLastRun_append_lastRun]
    have hmeet : Meet (glueIf glued ++ cells (withoutLastRun before.toList))
        (cells (lastRun before.toList) ++ x) := by
      intro c d hc _
      left
      rw [List.getLast?_append] at hc
      cases hlast : (withoutLastRun before.toList).getLast? with
      | none => cases glued <;> simp [cells, glueIf, hlast] at hc
      | some e =>
        obtain rfl : e = c := by simpa [cells, hlast] using hc
        exact endsClear_withoutLastRun before.toList e hlast
    rw [marksInFront, if_pos hopens, List.nil_append, hsplit] at h
    rw [inferPrefix_of_opensSlot hopens, String.toList_ofList]
    refine (h.of_append hmeet).imp_left fun h => List.mem_map_of_mem ?_
    have : w ∈ words (inner glued false (withoutLastRun before.toList)) :=
      IsWordOf.mem_words_inner (by simpa [glueIf] using h)
    simpa [inner] using this
  · have hprefix : ¬EndsInPrefix before.toList := fun hp => hopens (.inr (.inr hp))
    rw [inferPrefix_of_not_endsInPrefix hprefix]
    rw [marksInFront, if_neg hopens] at h
    by_cases hbefore : before = ""
    · -- no text is in front, so the word is behind the mark
      subst hbefore
      rw [if_pos rfl] at h
      have h : IsWordOf w (.seam :: x) := by
        cases glued with
        | false => exact h
        | true => exact .of_cons_mark rfl h
      exact .inr (.of_cons_mark rfl h)
    · rw [if_neg hbefore, ← List.append_assoc, List.cons_append] at h
      refine (h.of_mark rfl).imp (fun h => List.mem_map_of_mem ?_) fun h => ?_
      · exact IsWordOf.mem_words_inner (by simpa [glueIf] using h)
      · exact .of_cons_mark rfl (.of_cons_mark rfl h)

/-- A word in a slot or behind it: it belongs to the slot, or to the text behind. -/
theorem IsWordOf.of_closesSlot {tail : String} {rest : List Span} {w : List Char}
    {x r : List Cell} (hr : SpansRun false tail rest r)
    (h : IsWordOf w (x ++ (marksBehind tail rest ++ (cells tail.toList ++ r)))) :
    IsWordOf w x ∨ ∃ glued, GlueInFront glued false tail (!rest.isEmpty) ∧
      IsWordOf w (glueIf glued ++ (cells tail.toList ++ r)) := by
  by_cases hcloses : ClosesSlot tail rest
  · have hmeet : Meet x (cells tail.toList ++ r) := by
      intro c d _ hd
      right
      rcases hcloses with ⟨rfl, hrest⟩ | hblank
      · obtain rfl := List.isEmpty_iff.1 hrest
        rw [SpansRun] at hr
        simp [hr, cells] at hd
      · cases htail : tail.toList with
        | nil => simp [htail] at hblank
        | cons e es =>
          obtain rfl : e = d := by simpa [htail, cells] using hd
          simpa [htail] using hblank
    rw [marksBehind, if_pos hcloses, List.nil_append] at h
    exact (h.of_append hmeet).imp_right fun h =>
      ⟨false, .inr ⟨rfl, .inl (startsClear_of_closesSlot hcloses)⟩, h⟩
  rw [marksBehind, if_neg hcloses] at h
  by_cases hprefix : tail = "" ∨ IsSlotPrefix tail rest
  · have hglue : GlueInFront false false tail (!rest.isEmpty) := by
      refine .inr ⟨rfl, hprefix.imp ?_ ?_⟩
      · rintro rfl
        exact startsClear_nil
      · rintro ⟨hrest, hrun, -⟩
        exact ⟨by simp [hrest], by simpa [IsRun] using hrun⟩
    rw [if_pos hprefix, List.cons_append, List.nil_append] at h
    exact (h.of_mark rfl).imp (fun h => .of_append_mark rfl h) fun h =>
      ⟨false, hglue, .of_cons_mark rfl h⟩
  · rw [if_neg hprefix, List.cons_append] at h
    exact (h.of_mark rfl).imp (fun h => .of_append_mark rfl h) fun h =>
      ⟨true, .inl rfl, .of_cons_mark rfl h⟩

/-- **A word that is not glued is known**: it is a free token of a text or a word of a slot. -/
theorem mem_values_of_spansRun {spans : List Span} {glued first : Bool} {before : String}
    {w : List Char} {m : List Cell} (hknown : (resolveSpans before spans).unknowns = [])
    (hm : SpansRun first before spans m) (hglue : GlueInFront glued first before (!spans.isEmpty))
    (hw : IsWordOf w (glueIf glued ++ (cells before.toList ++ m))) :
    String.ofList w ∈ freeTokens before (!first) (!spans.isEmpty) ++
      (resolveSpans before spans).values := by
  induction spans generalizing glued first before m with
  | nil =>
    rw [SpansRun] at hm
    subst hm
    apply List.mem_append_left
    rw [freeTokens_of_glueInFront hglue, List.isEmpty_nil, Bool.not_true]
    have : w ∈ words (inner glued false before.toList) :=
      IsWordOf.mem_words_inner (by simpa [glueIf] using hw)
    exact List.mem_map_of_mem this
  | cons span rest ih =>
    obtain ⟨slot, tail⟩ := span
    simp only [resolveSpans, Resolution.unknowns_append, Resolution.unknowns_tokens,
      Resolution.unknowns_known, List.append_nil, List.append_eq_nil_iff] at hknown
    rw [SpansRun] at hm
    obtain ⟨v, r, hv, hr, rfl⟩ := hm
    obtain ⟨value, rfl, hvalue⟩ := mem_values_resolveSlot hknown.1 hv
    simp only [resolveSpans, Resolution.values_append, Resolution.values_known,
      Resolution.values_tokens, List.isEmpty_cons, Bool.not_false, List.mem_append,
      List.mem_flatMap]
    rcases hw.of_opensSlot hglue with hfree | hw
    · exact .inl hfree
    rw [← List.append_assoc] at hw
    rcases hw.of_closesSlot hr with hw | ⟨glued', hglue', hw⟩
    · -- the word is one of the slot with its prefix
      rw [cells, cells, ← List.map_append] at hw
      refine .inr (.inl (.inl ⟨_, hvalue, List.mem_map_of_mem ?_⟩))
      rw [String.toList_append]
      exact isWordOf_cells_iff.1 hw
    · rcases List.mem_append.1 (ih hknown.2 hr hglue' hw) with h | h
      · exact .inr (.inl (.inr h))
      · exact .inr (.inr h)

theorem mem_values_of_isWordOf {e : Expr} {w : List Char} {m : List Cell}
    (hknown : (resolve e).unknowns = []) (hm : Runs e m) (hw : IsWordOf w m) :
    String.ofList w ∈ (resolve e).values := by
  fun_induction resolve e with
  | case1 place how e types ih =>
    rw [Runs] at hm
    exact ih hknown hm
  | case2 place value =>
    rw [Runs] at hm
    subst hm
    exact List.mem_map_of_mem (isWordOf_cells_iff.1 hw)
  | case3 place test yes no ihy ihn =>
    rw [Resolution.unknowns_append, List.append_eq_nil_iff] at hknown
    rw [Runs] at hm
    rw [Resolution.values_append]
    rcases hm with hm | hm
    · exact List.mem_append_left _ (ihy hknown.1 hm)
    · exact List.mem_append_right _ (ihn hknown.2 hm)
  | case4 place head spans =>
    rw [Runs] at hm
    obtain ⟨r, hr, rfl⟩ := hm
    have : String.ofList w ∈ freeTokens head false (!spans.isEmpty) ++
        (resolveSpans head spans).values :=
      mem_values_of_spansRun hknown hr (.inl rfl : GlueInFront false true head (!spans.isEmpty)) hw
    exact this
  | case5 place callee args types => exact absurd hm (by simp [Runs])
  | case6 e => exact absurd hknown (Resolution.unknowns_ofUnknown_ne_nil e _)

/-! ## Runs and evaluation -/

@[simp] theorem chars_cells (cs : List Char) : chars (cells cs) = cs := by
  induction cs with
  | nil => rfl
  | cons c cs ih => exact congrArg (c :: ·) ih

@[simp] theorem chars_append (m n : List Cell) : chars (m ++ n) = chars m ++ chars n :=
  List.filterMap_append

@[simp] theorem chars_marksInFront (first : Bool) (before : String) :
    chars (marksInFront first before) = [] := by
  unfold marksInFront
  split_ifs <;> rfl

@[simp] theorem chars_marksBehind (tail : String) (rest : List Span) :
    chars (marksBehind tail rest) = [] := by
  unfold marksBehind
  split_ifs <;> rfl

theorem spansYield_iff {spans : List Span} {first : Bool} {before : String} {s : String}
    (h : ∀ slot tail, Span.mk slot tail ∈ spans →
      ∀ v, Yields slot v ↔ ∃ m, Runs slot m ∧ chars m = v.toList) :
    SpansYield spans s ↔ ∃ m, SpansRun first before spans m ∧ chars m = s.toList := by
  induction spans generalizing first before s with
  | nil =>
    simp only [SpansYield, SpansRun, exists_eq_left]
    exact ⟨fun h => by rw [h]; rfl, fun h => String.toList_injective h.symm⟩
  | cons span rest ih =>
    obtain ⟨slot, tail⟩ := span
    have hslot := h slot tail List.mem_cons_self
    have hrest := fun r => @ih false tail r fun slot tail hmem => h slot tail (.tail _ hmem)
    simp only [SpansYield, SpansRun, hslot, hrest]
    constructor
    · rintro ⟨v, r, ⟨m, hm, hv⟩, ⟨n, hn, hr⟩, rfl⟩
      exact ⟨_, ⟨m, n, hm, hn, rfl⟩, by simp [hv, hr]⟩
    · rintro ⟨_, ⟨m, n, hm, hn, rfl⟩, hs⟩
      refine ⟨String.ofList (chars m), String.ofList (chars n), ⟨m, hm, by simp⟩, ⟨n, hn, by simp⟩,
        String.toList_injective ?_⟩
      simpa using hs.symm

/-- **A run is an evaluation**, with its seams marked. -/
theorem yields_iff_exists_runs {e : Expr} (he : IsText e) (s : String) :
    Yields e s ↔ ∃ m, Runs e m ∧ chars m = s.toList := by
  induction he generalizing s with
  | string place value => simp [Yields, Runs, eq_comm, String.toList_inj]
  | wrapped place how types h ih => simpa only [Yields, Runs] using ih s
  | conditional place test hy hn ihy ihn =>
    simp only [Yields, Runs, ihy, ihn, or_and_right, exists_or]
  | template place head h ih =>
    simp only [Yields, Runs]
    constructor
    · rintro ⟨r, hr, rfl⟩
      obtain ⟨m, hm, hmr⟩ := (spansYield_iff ih).1 hr
      exact ⟨_, ⟨m, hm, rfl⟩, by simp [hmr]⟩
    · rintro ⟨_, ⟨m, hm, rfl⟩, hs⟩
      refine ⟨String.ofList (chars m), (spansYield_iff ih).2 ⟨m, hm, by simp⟩,
        String.toList_injective ?_⟩
      simpa using hs.symm

/-! ## Tokens of runs -/

theorem cells_chars {m : List Cell} (hm : ∀ k ∈ m, k.char? ≠ none) : cells (chars m) = m := by
  induction m with
  | nil => rfl
  | cons k m ih =>
    have ih : cells (chars m) = m := ih fun j hj => hm j (List.mem_cons_of_mem _ hj)
    cases k with
    | char c => exact congrArg (.char c :: ·) ih
    | seam => exact absurd rfl (hm .seam List.mem_cons_self)
    | glue => exact absurd rfl (hm .glue List.mem_cons_self)

theorem clearBeside_getLast? {a : List Cell} (ha : EndsClear (chars a))
    (hglue : a.getLast? ≠ some .glue) : ClearBeside a.getLast? := by
  rcases a.eq_nil_or_concat with rfl | ⟨a, k, rfl⟩
  · trivial
  cases k with
  | char c => simpa [chars, Cell.char?, ClearBeside] using ha
  | seam => simp [ClearBeside]
  | glue => simp at hglue

theorem clearBeside_head? {b : List Cell} (hb : StartsClear (chars b))
    (hglue : b.head? ≠ some .glue) : ClearBeside b.head? := by
  cases b with
  | nil => trivial
  | cons k b =>
    cases k with
    | char c => simpa [chars, Cell.char?, ClearBeside] using hb
    | seam => trivial
    | glue => simp at hglue

/-- A token that is not glued is a word of the run. -/
theorem IsTokenAt.isWordOf {a x b : List Cell} (h : IsTokenAt a x b) (hglued : ¬Glued a x b) :
    IsWordOf (chars x) (a ++ (x ++ b)) := by
  simp only [Glued, not_or, not_exists, not_and] at hglued
  obtain ⟨hmarks, hfront, hbehind⟩ := hglued
  have hx : cells (chars x) = x := cells_chars hmarks
  refine ⟨fun hnil => ?_, h.isRun, a, b, by rw [hx], clearBeside_getLast? h.front hfront,
    clearBeside_head? h.behind hbehind⟩
  obtain ⟨c, hc⟩ := h.begins
  rw [← hx, hnil] at hc
  simp [cells] at hc

/-- The cells of a part of the characters, from the first of these characters to the last. -/
theorem exists_of_chars_eq {x : List Cell} {w : List Char} (hx : chars x = w) (hne : w ≠ []) :
    ∃ a y b, x = a ++ (y ++ b) ∧ chars a = [] ∧ chars y = w ∧ chars b = [] ∧
      (∃ c, y.head? = some (.char c)) ∧ ∃ c, y.getLast? = some (.char c) := by
  have hmark : ∀ {m : List Cell}, (∀ k ∈ m, k.char? = none) → chars m = [] := fun h => by
    simpa [chars] using h
  have hchar : ∀ {k : Cell} {c : Char}, k.char? = some c → k = .char c := fun {k c} h => by
    cases k <;> simp_all [Cell.char?]
  obtain ⟨c, w, rfl⟩ := List.exists_cons_of_ne_nil hne
  obtain ⟨a, k, z, rfl, ha, hk, hz⟩ := List.filterMap_eq_cons_iff.1 hx
  obtain rfl := hchar hk
  rcases w.eq_nil_or_concat with rfl | ⟨w, d, rfl⟩
  · exact ⟨a, [.char c], z, rfl, hmark ha, rfl, hz, ⟨c, rfl⟩, c, rfl⟩
  · rw [List.concat_eq_append] at hz
    obtain ⟨y, z, rfl, hy, hz⟩ := List.filterMap_eq_append_iff.1 hz
    obtain ⟨e, k, b, rfl, he, hk, hb⟩ := List.filterMap_eq_cons_iff.1 hz
    obtain rfl := hchar hk
    refine ⟨a, .char c :: (y ++ (e ++ [.char d])), b, by simp, hmark ha, ?_, hb, ⟨c, rfl⟩, d, ?_⟩
    · have hy : chars y = w := hy
      show c :: chars (y ++ (e ++ [.char d])) = c :: w.concat d
      rw [chars_append, chars_append, hy, hmark he, List.concat_eq_append]
      rfl
    · simp [List.getLast?_cons, List.getLast?_append]

/-- **Every token of the string of a run has its place in the run.** -/
theorem exists_isTokenAt {m : List Cell} {t : String}
    (ht : t ∈ classTokens (String.ofList (chars m))) :
    ∃ a x b, m = a ++ (x ++ b) ∧ IsTokenAt a x b ∧ chars x = t.toList := by
  obtain ⟨w, hw, rfl⟩ := List.mem_map.1 ht
  rw [String.toList_ofList] at hw ⊢
  obtain ⟨hne, hrun, p, q, hpq, hp, hq⟩ := mem_words_iff.1 hw
  rw [List.append_assoc] at hpq
  obtain ⟨a, r, rfl, rfl, hr⟩ := List.filterMap_eq_append_iff.1 hpq
  obtain ⟨x, b, rfl, hx, rfl⟩ := List.filterMap_eq_append_iff.1 hr
  obtain ⟨a', y, b', rfl, ha', hy, hb', hbegins, hends⟩ := exists_of_chars_eq hx hne
  refine ⟨a ++ a', y, b' ++ b, by simp, ⟨hbegins, hends, hy ▸ hrun, ?_, ?_⟩, hy⟩
  · rwa [chars_append, ha', List.append_nil]
  · rwa [chars_append, hb', List.nil_append]

/-! ## What is kept and what can be lost -/

/-- **Nothing is lost but what is glued.** If nothing in an expression is unknown, each string to
which it can evaluate is a run of it, every token of the string has a place in the run, and each
token that is not glued at its place is a value. -/
theorem mem_values_of_runs (e : Expr) (he : IsText e) (hknown : (resolve e).unknowns = []) :
    (∀ s, Yields e s ↔ ∃ m, Runs e m ∧ chars m = s.toList) ∧
      ∀ m, Runs e m →
        (∀ t ∈ classTokens (String.ofList (chars m)),
          ∃ a x b, m = a ++ (x ++ b) ∧ IsTokenAt a x b ∧ chars x = t.toList) ∧
        ∀ a x b, m = a ++ (x ++ b) → IsTokenAt a x b →
          Glued a x b ∨ String.ofList (chars x) ∈ (resolve e).values := by
  refine ⟨yields_iff_exists_runs he, fun m hm => ⟨fun t ht => exists_isTokenAt ht, ?_⟩⟩
  rintro a x b rfl htoken
  rw [or_iff_not_imp_left]
  exact fun hglued => mem_values_of_isWordOf hknown hm (htoken.isWordOf hglued)

/-- The template `` `${"btn "}icon-${on ? "on" : "off"}${big ? " big" : ""}` ``: its first slot is
glued to the prefix of the second, and the second to the third. -/
def seamTemplate : Expr :=
  .template 0 ""
    [.mk (.string 3 "btn ") "icon-",
      .mk (.conditional 17 (.name 17 "on") (.string 22 "on") (.string 29 "off")) "",
      .mk (.conditional 37 (.name 37 "big") (.string 43 " big") (.string 52 "")) ""]

/-- The run of the template that takes the first branches, in front of `icon-on`. -/
def seamFront : List Cell := cells "btn ".toList ++ [.seam]

/-- The cells of `icon-on`. -/
def seamToken : List Cell := cells "icon-on".toList

/-- The rest of the run. -/
def seamBehind : List Cell := .seam :: .seam :: cells " big".toList

theorem isText_seamTemplate : IsText seamTemplate := by
  refine .template _ _ fun slot tail hmem => ?_
  simp only [List.mem_cons, Span.mk.injEq, List.not_mem_nil, or_false] at hmem
  rcases hmem with ⟨rfl, -⟩ | ⟨rfl, -⟩ | ⟨rfl, -⟩
  · exact .string _ _
  · exact .conditional _ _ (.string _ _) (.string _ _)
  · exact .conditional _ _ (.string _ _) (.string _ _)

theorem runs_seamTemplate : Runs seamTemplate (seamFront ++ (seamToken ++ seamBehind)) := by
  simp only [seamTemplate, Runs, SpansRun]
  refine ⟨_, ⟨cells "btn ".toList, _, rfl, ⟨cells "on".toList, _, .inl rfl,
    ⟨cells " big".toList, [], .inl rfl, rfl, rfl⟩, rfl⟩, rfl⟩, ?_⟩
  decide

theorem isTokenAt_seamToken : IsTokenAt seamFront seamToken seamBehind where
  begins := ⟨'i', rfl⟩
  ends := ⟨'n', rfl⟩
  isRun := by
    have hrun : "icon-on".toList.all (fun c => !isBlank c) = true := by decide
    simpa [seamToken, IsRun] using hrun
  front := by
    show EndsClear ("btn".toList ++ [' '])
    exact endsClear_append_singleton.2 rfl
  behind := startsClear_cons.2 (rfl : isBlank ' ' = true)

theorem not_glued_seamToken : ¬Glued seamFront seamToken seamBehind := by
  rintro (⟨k, hk, hnone⟩ | h | h)
  · exact char?_of_mem_cells hk hnone
  · simp [seamFront] at h
  · simp [seamBehind] at h

theorem mem_values_seamTemplate :
    IsText seamTemplate ∧ (resolve seamTemplate).unknowns = [] ∧
      Runs seamTemplate (seamFront ++ (seamToken ++ seamBehind)) ∧
      IsTokenAt seamFront seamToken seamBehind ∧ ¬Glued seamFront seamToken seamBehind ∧
      String.ofList (chars seamToken) ∈ (resolve seamTemplate).values :=
  have hknown : (resolve seamTemplate).unknowns = [] := by decide
  have hruns := mem_values_of_runs seamTemplate isText_seamTemplate hknown
  ⟨isText_seamTemplate, hknown, runs_seamTemplate, isTokenAt_seamToken, not_glued_seamToken,
    ((hruns.2 _ runs_seamTemplate).2 _ _ _ rfl isTokenAt_seamToken).resolve_left
      not_glued_seamToken⟩

/-- The template `` `btn${big ? "Large" : "Small"} icon-${on ? "on" : "off"}` ``, of which the
first slot is glued to a text that is no prefix. -/
def gluedTemplate : Expr :=
  .template 0 "btn"
    [.mk (.conditional 6 (.name 6 "big") (.string 12 "Large") (.string 22 "Small")) " icon-",
      .mk (.conditional 38 (.name 38 "on") (.string 43 "on") (.string 50 "off")) ""]

theorem isText_gluedTemplate : IsText gluedTemplate := by
  refine .template _ _ fun slot tail hmem => ?_
  simp only [List.mem_cons, Span.mk.injEq, List.not_mem_nil, or_false] at hmem
  rcases hmem with ⟨rfl, -⟩ | ⟨rfl, -⟩ <;> exact .conditional _ _ (.string _ _) (.string _ _)

theorem yields_gluedTemplate : Yields gluedTemplate "btnLarge icon-on" := by
  simp only [gluedTemplate, Yields, SpansYield]
  exact ⟨"Large icon-on", ⟨"Large", "on", .inl rfl, ⟨"on", "", .inl rfl, rfl, rfl⟩, rfl⟩, rfl⟩

/-- The words at a seam can be lost without a gap: of `btnLarge` only `Large` is known. -/
theorem not_forall_words_mem_values :
    ¬∀ e, IsText e → (resolve e).unknowns = [] → ∀ s, Yields e s →
      ∀ t ∈ classTokens s, t ∈ (resolve e).values := by
  intro h
  have hlost := h gluedTemplate isText_gluedTemplate (by decide) _ yields_gluedTemplate "btnLarge"
    (by decide)
  exact absurd hlost (by decide)

end GlyphTrim.ClassName
