import GlyphTrim.Proofs.Text.Position
import GlyphTrim.Proofs.Text.Width
import GlyphTrim.Report.Warnings

/-!
# The mark under a gap

A gap is reported with its line and a mark on the next one. The mark stands under the gap if it
has as many blanks in front of it as what the line has in front of the gap takes columns
(`MarksPlace`). A report knows the display column of the gap, and takes as many characters of the
line as this column counts columns (`getElem?_gapLines_gapOf`). So the mark is right where every
character in front of the gap counts one column, and not in general (`not_forall_marksPlace`);
`marksPlace_gapOf` says when.
-/

namespace GlyphTrim.Report

open Text FileUsage

/-- The line of a mark with a number of blanks in front of it. -/
def caretLine (gutter width : Nat) : String :=
  rightAligned gutter "" ++ " | " ++ rightAligned width "" ++ "^"

/-- What the printed line of a place has in front of the place. -/
def printedFront (text : List Char) (place : Nat) : List Char :=
  (position text place).sourceLine.toList.take (lineFront text place).length

/-- The mark under a gap stands under the place: the blanks in front of it are the columns of what
the printed line has in front of the place. -/
def MarksPlace (text : List Char) (place gutter : Nat) (g : Gap) : Prop :=
  (gapLines gutter g)[4]? = some (caretLine gutter (textWidth (printedFront text place)))

/-! ## Lines with a mark -/

theorem length_rightAligned_empty (width : Nat) : (rightAligned width "").length = width := by
  simp [rightAligned]

theorem caretLine_inj {gutter a b : Nat} : caretLine gutter a = caretLine gutter b ↔ a = b := by
  refine ⟨fun h => ?_, fun h => h ▸ rfl⟩
  have hlength := congrArg String.length h
  simpa [caretLine, length_rightAligned_empty] using hlength

/-! ## The gaps of a text -/

variable (file : String) (text : List Char) (u : ClassName.Unknown) (gutter : Nat)

/-- The mark has in front of it as many characters of the line as the gap has columns. -/
theorem caretOffset_gapOf : caretOffset (gapOf file text u).context =
    textWidth ((position text u.place).sourceLine.toList.take
      (columns (lineFront text u.place))) := by
  have hcol : (gapOf file text u).context.col = 1 + columns (lineFront text u.place) :=
    col_position text u.place
  rw [caretOffset, hcol, Nat.add_sub_cancel_left]
  rfl

theorem getElem?_gapLines_gapOf : (gapLines gutter (gapOf file text u))[4]? =
    some (caretLine gutter (textWidth ((position text u.place).sourceLine.toList.take
      (columns (lineFront text u.place))))) := by
  rw [← caretOffset_gapOf file]
  rfl

theorem marksPlace_gapOf_iff : MarksPlace text u.place gutter (gapOf file text u) ↔
    textWidth ((position text u.place).sourceLine.toList.take (columns (lineFront text u.place))) =
      textWidth (printedFront text u.place) := by
  rw [MarksPlace, getElem?_gapLines_gapOf, Option.some.injEq, caretLine_inj]

theorem printedFront_eq {text : List Char} {place : Nat} (hin : place < text.length) :
    printedFront text place = lineFront text place :=
  (List.prefix_iff_eq_take.1 (isLineFront_lineFront hin).isPrefix).symm

theorem columns_eq_length {front : List Char} (h : ∀ c ∈ front, columnsBefore c = 1) :
    columns front = front.length := by
  rw [columns, List.map_congr_left h]
  simp

/-! ## Where the mark is right -/

/-- **The mark under a gap** has in front of it the columns of as many characters of the line as
the gap has display columns in front of it. It stands under the gap exactly if these characters
are as wide as those in front of the gap: always where every character in front of the gap counts
one column, and, on a line where no character asks anything of the one before it, exactly if the
characters by which the two differ take no column. -/
theorem marksPlace_gapOf {file code : String} {m : Tsx.Module}
    (hm : readModule file (dropMark code.toList) = .ok m) :
    let text := dropMark code.toList
    (∃ usage, ofText file code = .ok usage ∧
      usage.gaps = (ClassName.usage m).unknowns.map (gapOf file text)) ∧
    ∀ u ∈ (ClassName.usage m).unknowns, ∀ gutter,
      let g := gapOf file text u
      let line := g.context.sourceLine.toList
      let front := lineFront text u.place
      (u.place < text.length → IsLineFront text u.place line (printedFront text u.place)) ∧
      (gapLines gutter g)[4]? =
        some (caretLine gutter (textWidth (line.take (columns front)))) ∧
      (MarksPlace text u.place gutter g ↔
        textWidth (line.take (columns front)) = textWidth (printedFront text u.place)) ∧
      ((∀ c ∈ front, columnsBefore c = 1) → MarksPlace text u.place gutter g) ∧
      ((∀ c ∈ line, AsksNothing c) → (MarksPlace text u.place gutter g ↔
        ∀ c ∈ (line.take (max (columns front) front.length)).drop
          (min (columns front) front.length), ownWidth c = 0)) := by
  intro text
  refine ⟨⟨⟨NameSet.ofList (ClassName.usage m).values, _⟩, by rw [ofText, hm]; rfl, rfl⟩, ?_⟩
  intro u _ gutter g line front
  have hiff : MarksPlace text u.place gutter g ↔
      textWidth (line.take (columns front)) = textWidth (line.take front.length) :=
    marksPlace_gapOf_iff file text u gutter
  refine ⟨fun hin => ?_, getElem?_gapLines_gapOf file text u gutter, hiff, fun hone => ?_,
    fun hask => ?_⟩
  · rw [printedFront_eq hin]
    exact isLineFront_lineFront hin
  · rw [hiff, columns_eq_length hone]
  · rw [hiff, textWidth_take_eq_iff hask]

/-- A gap with plain text in front of it, and one behind a character of two columns. -/
def twoGapsTsx : String := "<><i className=\x7ba\x7d /><b t=\"\u56fe\" className=\x7bc\x7d /></>"

/-- The gaps of the text. -/
def twoUnknowns : List ClassName.Unknown :=
  [⟨16, .expression, "identifier `a`"⟩, ⟨41, .expression, "identifier `c`"⟩]

theorem exists_readModule_twoGapsTsx :
    ∃ m, readModule "I.tsx" (dropMark twoGapsTsx.toList) = .ok m ∧
      (ClassName.usage m).unknowns = twoUnknowns := by
  have hfound : (readModule "I.tsx" (dropMark twoGapsTsx.toList)).toOption.map
      (fun m => (ClassName.usage m).unknowns) = some twoUnknowns := by
    decide +kernel
  cases hm : readModule "I.tsx" (dropMark twoGapsTsx.toList) with
  | error e => simp [hm, Except.toOption] at hfound
  | ok m => exact ⟨m, rfl, by rw [hm] at hfound; exact Option.some.inj hfound⟩

/-- The mark is right under the first gap, and not under the second one. -/
theorem marksPlace_gapOf_twoGapsTsx :
    ∃ m, readModule "I.tsx" (dropMark twoGapsTsx.toList) = .ok m ∧
      MarksPlace (dropMark twoGapsTsx.toList) 16 1
        (gapOf "I.tsx" (dropMark twoGapsTsx.toList) twoUnknowns[0]) ∧
      ¬ MarksPlace (dropMark twoGapsTsx.toList) 41 1
        (gapOf "I.tsx" (dropMark twoGapsTsx.toList) twoUnknowns[1]) := by
  obtain ⟨m, hm, hunknowns⟩ := exists_readModule_twoGapsTsx
  have hlaw := (marksPlace_gapOf hm).2
  rw [hunknowns] at hlaw
  have hplain : (lineFront (dropMark twoGapsTsx.toList) 16).all (columnsBefore · == 1) = true := by
    decide +kernel
  have hasks : (gapOf "I.tsx" (dropMark twoGapsTsx.toList)
      twoUnknowns[1]).context.sourceLine.toList.all (decide <| AsksNothing ·) = true := by
    decide +kernel
  refine ⟨m, hm, (hlaw twoUnknowns[0] (by decide) 1).2.2.2.1 fun c hc =>
    eq_of_beq (List.all_eq_true.1 hplain c hc), fun hmark => ?_⟩
  have hzero := ((hlaw twoUnknowns[1] (by decide) 1).2.2.2.2 fun c hc =>
    of_decide_eq_true (List.all_eq_true.1 hasks c hc)).1 hmark
  exact absurd (hzero 'c' (by decide +kernel)) (by decide)

/-- **The mark is not always under the gap**: a character of two columns in front of the gap moves
it by one character too many. -/
theorem not_forall_marksPlace :
    ¬ ∀ (file code : String) (m : Tsx.Module), readModule file (dropMark code.toList) = .ok m →
      ∀ u ∈ (ClassName.usage m).unknowns, ∀ gutter,
        MarksPlace (dropMark code.toList) u.place gutter
          (gapOf file (dropMark code.toList) u) := by
  intro h
  obtain ⟨m, hm, hunknowns⟩ := exists_readModule_twoGapsTsx
  have hmark := h _ _ m hm twoUnknowns[1] (by rw [hunknowns]; decide) 1
  rw [marksPlace_gapOf_iff] at hmark
  exact absurd hmark (by decide +kernel)

end GlyphTrim.Report
