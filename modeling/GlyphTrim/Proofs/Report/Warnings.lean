import Mathlib.Data.List.Sort
import GlyphTrim.Proofs.Report.Caret
import GlyphTrim.Report.Summary

/-!
# What the warnings tell

A report tells the findings of a run, each of them once. The order of gaps in a report is linear
(`Gap.order`), so it does not matter in which order the gaps were found (`Gap.sort_eq_sort_iff`):
two gaps that the order does not part are the same gap. The gutter is as wide as the widest number
of a line (`gutterWidth_fits`). A line that begins a finding is told from the others by its head
(`IsHeadline`), which counts the findings of a report (`countP_isHeadline_warningLines`).
-/

namespace GlyphTrim

/-! ## The order of gaps -/

namespace Gap

/-- The place of a gap is in front of the place of another one, or the same: by file, line and
column. -/
def AtOrBefore (g h : Gap) : Prop :=
  g.context.file < h.context.file ∨ g.context.file = h.context.file ∧
    (g.context.line < h.context.line ∨ g.context.line = h.context.line ∧
      g.context.col ≤ h.context.col)

theorem order_eq_compareLex : order =
    compareLex (compareOn (·.context.file)) (compareLex (compareOn (·.context.line))
      (compareLex (compareOn (·.context.col)) (compareLex (compareOn (·.context.sourceLine))
        (compareLex (compareOn (·.reason.rank)) (compareOn (·.expression)))))) := rfl

instance : Std.TransCmp order := order_eq_compareLex ▸ inferInstance

theorem rank_inj {r r' : GapReason} : r.rank = r'.rank ↔ r = r' := by
  cases r <;> cases r' <;> decide

/-- The order parts two gaps as soon as they differ in anything. -/
instance : Std.LawfulEqCmp order where
  eq_of_compare {g h} heq := by
    obtain ⟨⟨file, line, col, sourceLine⟩, reason, expression⟩ := g
    obtain ⟨⟨file', line', col', sourceLine'⟩, reason', expression'⟩ := h
    simp only [order, Ordering.then_eq_eq, Std.compare_eq_iff_eq, rank_inj] at heq
    obtain ⟨rfl, rfl, rfl, rfl, rfl, rfl⟩ := heq
    rfl

/-- The order goes by the place first. -/
theorem atOrBefore_of_isLE_order {g h : Gap} (hle : (g.order h).isLE = true) : g.AtOrBefore h := by
  rw [order, Ordering.isLE_then_iff_or, Std.compare_eq_iff_eq, Ordering.isLE_then_iff_or,
    Nat.compare_eq_lt, Nat.compare_eq_eq, Ordering.isLE_then_iff_or, Nat.compare_eq_lt,
    Nat.compare_eq_eq] at hle
  rcases hle with hfile | ⟨hfile, hline | ⟨hline, hcol | ⟨hcol, -⟩⟩⟩
  · exact .inl (compareOfLessAndEq_eq_lt.1 hfile)
  · exact .inr ⟨hfile, .inl hline⟩
  · exact .inr ⟨hfile, .inr ⟨hline, hcol.le⟩⟩
  · exact .inr ⟨hfile, .inr ⟨hline, hcol.le⟩⟩

theorem sort_perm (gaps : List Gap) : (sort gaps).Perm gaps := List.mergeSort_perm _ _

theorem pairwise_sort (gaps : List Gap) :
    (sort gaps).Pairwise fun g h => (g.order h).isLE = true := by
  refine List.pairwise_mergeSort (fun _ _ _ => Std.TransCmp.isLE_trans) (fun g h => ?_) gaps
  have hswap : h.order g = (g.order h).swap := Std.OrientedCmp.eq_swap
  rw [hswap, Bool.or_eq_true]
  cases g.order h <;> simp

theorem pairwise_atOrBefore_sort (gaps : List Gap) : (sort gaps).Pairwise AtOrBefore :=
  (pairwise_sort gaps).imp atOrBefore_of_isLE_order

/-- **The order in a report** does not depend on the order in which the gaps were found. -/
theorem sort_eq_sort_iff {gaps gaps' : List Gap} : sort gaps = sort gaps' ↔ gaps.Perm gaps' := by
  refine ⟨fun h => (sort_perm gaps).symm.trans (h ▸ sort_perm gaps'), fun h => ?_⟩
  -- gaps that stand in front of each other are the same
  refine List.Perm.eq_of_pairwise (fun g g' _ _ hle hge => ?_) (pairwise_sort gaps)
    (pairwise_sort gaps') ((sort_perm gaps).trans (h.trans (sort_perm gaps').symm))
  exact Std.LawfulEqCmp.eq_of_compare (Std.OrientedCmp.isLE_antisymm hle hge)

end Gap

/-! ## Findings -/

/-- A finding of a run. -/
inductive Finding
  | gap (gap : Gap)
  | skipped (file : SkippedFile)
  /-- A warning of the walk through the source directories. -/
  | walk (message : String)
  /-- A warning of the plan. -/
  | plan (message : String)
  /-- A warning about the font. -/
  | font (message : String)
  deriving DecidableEq

/-- What a report says about a finding. -/
def Finding.message : Finding → String
  | .gap g => g.message
  | .skipped f => f.message
  | .walk message | .plan message | .font message => message

/-- The gap that a finding is. -/
def Finding.gap? : Finding → Option Gap
  | .gap g => some g
  | _ => none

/-- The findings of a run without a place. -/
def Analysis.plainFindings (a : Analysis) : List Finding :=
  a.scan.skipped.map .skipped ++ a.scan.walkWarnings.map .walk ++ a.plan.warnings.map .plan ++
    a.fontWarnings.map .font

/-- The findings of a run. -/
def Analysis.findings (a : Analysis) : List Finding :=
  a.scan.gaps.map .gap ++ a.plainFindings

/-- The analysis with its gaps in another order, or with other gaps. -/
def Analysis.withGaps (a : Analysis) (gaps : List Gap) : Analysis :=
  { a with scan := { a.scan with gaps := gaps } }

theorem Analysis.length_findings (a : Analysis) : a.findings.length = a.warningCount := by
  simp [Analysis.findings, Analysis.plainFindings, Analysis.warningCount, Nat.add_assoc]

theorem Analysis.filterMap_gap?_plainFindings (a : Analysis) :
    a.plainFindings.filterMap Finding.gap? = [] := by
  refine List.filterMap_eq_nil_iff.2 fun f hf => ?_
  simp only [Analysis.plainFindings, List.mem_append, List.mem_map] at hf
  obtain ((⟨_, -, rfl⟩ | ⟨_, -, rfl⟩) | ⟨_, -, rfl⟩) | ⟨_, -, rfl⟩ := hf <;> rfl

namespace Report

/-! ## The gutter -/

theorem length_toString (n : Nat) : (toString n).length = (Nat.toDigits 10 n).length := by
  rw [← String.length_toList, Nat.toString_eq_repr, Nat.toList_repr]

/-- A smaller number is not written with more digits. -/
theorem length_toString_mono {m n : Nat} (h : m ≤ n) :
    (toString m).length ≤ (toString n).length := by
  rw [length_toString, length_toString,
    Nat.length_toDigits_le_iff (by decide) Nat.length_toDigits_pos]
  exact h.trans_lt ((Nat.length_toDigits_le_iff (by decide) Nat.length_toDigits_pos).1 le_rfl)

variable {gaps : List Gap} {g : Gap}

theorem gutterWidth_eq_of_perm {gaps' : List Gap} (h : gaps.Perm gaps') :
    gutterWidth gaps = gutterWidth gaps' := by
  have hmax : (gaps.map (·.context.line)).max? = (gaps'.map (·.context.line)).max? := by
    refine Option.ext fun n => ?_
    simp only [List.max?_eq_some_iff, (h.map _).mem_iff]
  rw [gutterWidth, gutterWidth, hmax]

/-- **The gutter** has room for the number of every line. -/
theorem gutterWidth_fits (hg : g ∈ gaps) :
    (toString g.context.line).length ≤ gutterWidth gaps := by
  have hmem : g.context.line ∈ gaps.map (·.context.line) := List.mem_map.2 ⟨g, hg, rfl⟩
  rw [gutterWidth]
  cases hmax : (gaps.map (·.context.line)).max? with
  | none => rw [List.max?_eq_none_iff.1 hmax] at hmem; exact absurd hmem List.not_mem_nil
  | some n => exact length_toString_mono ((List.max?_eq_some_iff.1 hmax).2 _ hmem)

/-- The gutter has no room to spare. -/
theorem exists_gutterWidth_eq (hne : gaps ≠ []) :
    ∃ g ∈ gaps, (toString g.context.line).length = gutterWidth gaps := by
  rw [gutterWidth]
  cases hmax : (gaps.map (·.context.line)).max? with
  | none => exact absurd (List.map_eq_nil_iff.1 (List.max?_eq_none_iff.1 hmax)) hne
  | some n =>
    obtain ⟨g, hg, rfl⟩ := List.mem_map.1 (List.max?_eq_some_iff.1 hmax).1
    exact ⟨g, hg, rfl⟩

/-! ## The lines of a finding -/

/-- A number of blanks. -/
def blanks (n : Nat) : String := String.ofList (List.replicate n ' ')

/-- The lines under the head of a gap, with a gutter for the numbers of lines: its place, its line
between two lines of the gutter, the mark under it, and an empty line. -/
def placeLines (gutter : Nat) (c : SourceContext) : List String :=
  let number := toString c.line
  [ "  --> " ++ c.file ++ ":" ++ number ++ ":" ++ toString c.col,
    blanks gutter ++ " |",
    blanks (gutter - number.length) ++ number ++ " | " ++ c.sourceLine,
    blanks gutter ++ " | " ++ blanks (caretOffset c) ++ "^",
    "" ]

/-- The lines of a finding: its message, and the place of a gap. -/
def findingLines (gutter : Nat) (f : Finding) : List String :=
  ("warning: " ++ f.message) :: (f.gap?.map fun g => placeLines gutter g.context).getD []

theorem rightAligned_empty (width : Nat) : rightAligned width "" = blanks width := by
  simp [rightAligned, blanks]

theorem warningLine_eq (message : String) : warningLine message = "warning: " ++ message :=
  congrArg (· ++ message) (show "warning" ++ ": " = "warning: " by decide)

theorem gapLines_eq (gutter : Nat) (g : Gap) : gapLines gutter g = findingLines gutter (.gap g) := by
  have hhead : s!"{g.severity.text}: {g.message}" = "warning: " ++ g.message :=
    warningLine_eq g.message
  rw [gapLines, hhead, rightAligned_empty, rightAligned_empty]
  rfl

theorem flatMap_findingLines_plainFindings (gutter : Nat) (a : Analysis) :
    a.plainFindings.flatMap (findingLines gutter) = (plainMessages a).map warningLine := by
  have hline : warningLine = fun message => "warning: " ++ message := funext warningLine_eq
  simp [Analysis.plainFindings, plainMessages, findingLines, Finding.gap?, Finding.message, hline,
    List.flatMap_append, List.flatMap_map, ← List.map_eq_flatMap, Function.comp_def]

/-- The findings in the order of the report: the gaps by their places, then the others. -/
def toldFindings (a : Analysis) : List Finding :=
  (Gap.sort a.scan.gaps).map .gap ++ a.plainFindings

theorem toldFindings_perm (a : Analysis) : (toldFindings a).Perm a.findings :=
  ((Gap.sort_perm _).map _).append_right _

theorem warningLines_eq (a : Analysis) : warningLines a =
    (toldFindings a).flatMap (findingLines (gutterWidth a.scan.gaps)) ++
      closing a.scan.gaps := by
  have hgap : gapLines (gutterWidth a.scan.gaps) =
      fun g => findingLines (gutterWidth a.scan.gaps) (.gap g) := funext (gapLines_eq _)
  rw [warningLines, toldFindings, List.flatMap_append, flatMap_findingLines_plainFindings,
    List.flatMap_map, gutterWidth_eq_of_perm (Gap.sort_perm _), closing, closing,
    (Gap.sort_perm _).length_eq, (Gap.sort_perm a.scan.gaps).isEmpty_eq, hgap]

theorem filterMap_gap?_toldFindings (a : Analysis) :
    (toldFindings a).filterMap Finding.gap? = Gap.sort a.scan.gaps := by
  rw [toldFindings, List.filterMap_append, a.filterMap_gap?_plainFindings, List.append_nil,
    List.filterMap_map]
  exact List.filterMap_some

/-! ## Headlines -/

/-- A line that begins what a report says about a finding. -/
def IsHeadline (line : String) : Prop := "warning: ".toList <+: line.toList

instance : DecidablePred IsHeadline :=
  fun line => inferInstanceAs (Decidable ("warning: ".toList <+: line.toList))

theorem isHeadline_append (message : String) : IsHeadline ("warning: " ++ message) := by
  rw [IsHeadline, String.toList_append]
  exact List.prefix_append _ _

theorem not_isHeadline_of_head? {line : String} (h : line.toList.head? ≠ some 'w') :
    ¬IsHeadline line := by
  rintro ⟨rest, hrest⟩
  exact h (hrest ▸ rfl)

/-- Blanks in front of a text make no headline. -/
theorem not_isHeadline_blanks (n : Nat) {text : String} (h : text.toList.head? ≠ some 'w') :
    ¬IsHeadline (blanks n ++ text) := by
  refine not_isHeadline_of_head? ?_
  rw [blanks, String.toList_append, String.toList_ofList]
  cases n with
  | zero => exact h
  | succ k => simp [List.replicate_succ]

theorem head?_toString_ne (n : Nat) (rest : String) :
    (toString n ++ rest).toList.head? ≠ some 'w' := by
  rw [String.toList_append, Nat.toString_eq_repr, Nat.toList_repr]
  obtain ⟨d, ds, hdigits⟩ :=
    List.exists_cons_of_length_pos (Nat.length_toDigits_pos (b := 10) (n := n))
  have hd : d.isDigit = true :=
    Nat.isDigit_of_mem_toDigits (by decide) (by decide) (hdigits ▸ List.mem_cons_self)
  rw [hdigits, List.cons_append, List.head?_cons]
  rintro ⟨⟩
  exact absurd hd (by decide)

/-- The lines under the head of a gap are no headlines. -/
theorem countP_isHeadline_placeLines (gutter : Nat) (c : SourceContext) :
    (placeLines gutter c).countP (decide <| IsHeadline ·) = 0 := by
  have hplace : ¬IsHeadline ("  --> " ++ c.file ++ ":" ++ toString c.line ++ ":" ++
      toString c.col) := not_isHeadline_of_head? (by simp)
  have hblank : ¬IsHeadline (blanks gutter ++ " |") := not_isHeadline_blanks gutter (by decide)
  have hline : ¬IsHeadline (blanks (gutter - (toString c.line).length) ++ toString c.line ++ " | " ++
      c.sourceLine) := by
    rw [String.append_assoc, String.append_assoc]
    exact not_isHeadline_blanks _ (head?_toString_ne _ _)
  have hcaret : ¬IsHeadline (blanks gutter ++ " | " ++ blanks (caretOffset c) ++ "^") := by
    rw [String.append_assoc, String.append_assoc]
    exact not_isHeadline_blanks gutter (by simp)
  have hempty : ¬IsHeadline "" := by decide
  simp only [placeLines, List.countP_cons, hplace, hblank, hline, hcaret, hempty, decide_false,
    Bool.false_eq_true, if_false, List.countP_nil]

/-- Each finding has one headline. -/
theorem countP_isHeadline_findingLines (gutter : Nat) (f : Finding) :
    (findingLines gutter f).countP (decide <| IsHeadline ·) = 1 := by
  have hrest : ((f.gap?.map fun g => placeLines gutter g.context).getD []).countP
      (decide <| IsHeadline ·) = 0 := by
    cases f with
    | gap g => exact countP_isHeadline_placeLines gutter g.context
    | _ => rfl
  rw [findingLines, List.countP_cons, hrest, if_pos (decide_eq_true (isHeadline_append _))]

theorem countP_isHeadline_flatMap (gutter : Nat) (fs : List Finding) :
    (fs.flatMap (findingLines gutter)).countP (decide <| IsHeadline ·) = fs.length := by
  rw [List.countP_flatMap, Function.comp_def]
  simp [countP_isHeadline_findingLines]

theorem length_closing (gaps : List Gap) : (closing gaps).length = if gaps = [] then 0 else 1 := by
  cases gaps <;> rfl

theorem countP_isHeadline_closing (gaps : List Gap) :
    (closing gaps).countP (decide <| IsHeadline ·) = (closing gaps).length := by
  rw [List.countP_eq_length]
  intro line hline
  rw [closing] at hline
  split at hline
  · exact absurd hline List.not_mem_nil
  · rw [List.mem_singleton.1 hline, warningLine_eq]
    exact decide_eq_true (isHeadline_append _)

/-- **The headlines of a report** are as many as the warnings that a command counts, and one more
for the closing line. -/
theorem countP_isHeadline_warningLines (a : Analysis) :
    (warningLines a).countP (decide <| IsHeadline ·) =
      a.warningCount + if a.scan.gaps = [] then 0 else 1 := by
  rw [warningLines_eq, List.countP_append, countP_isHeadline_flatMap, countP_isHeadline_closing,
    length_closing, (toldFindings_perm a).length_eq, a.length_findings]

/-! ## The law of the report -/

/-- The text of lines: each of them with a line feed behind it. -/
theorem toList_unlines (lines : List String) :
    (unlines lines).toList = lines.flatMap fun line => line.toList ++ ['\n'] := by
  simp [unlines, String.toList_join, List.flatMap_map]

/-- A report that tells the findings of a run one after another, with a gutter for the numbers of
lines. -/
structure Tells (a : Analysis) (gutter : Nat) (told : List Finding) : Prop where
  /-- It tells each finding as often as it was made. -/
  perm : told.Perm a.findings
  /-- Its lines are those of the findings, and a closing line behind them. -/
  lines_eq : warningLines a = told.flatMap (findingLines gutter) ++ closing a.scan.gaps
  /-- It writes these lines, each with a line feed behind it. -/
  text_eq : (warnings a).toList =
    (told.flatMap (findingLines gutter) ++ closing a.scan.gaps).flatMap
      fun line => line.toList ++ ['\n']
  /-- It tells the gaps in the order of their places. -/
  inOrder : (told.filterMap Finding.gap?).Pairwise Gap.AtOrBefore
  /-- The gutter has room for the number of every line. -/
  fits : ∀ g ∈ a.scan.gaps, (toString g.context.line).length ≤ gutter
  /-- The gutter has no room to spare. -/
  tight : a.scan.gaps ≠ [] → ∃ g ∈ a.scan.gaps, (toString g.context.line).length = gutter

theorem tells_toldFindings (a : Analysis) :
    Tells a (gutterWidth a.scan.gaps) (toldFindings a) where
  perm := toldFindings_perm a
  lines_eq := warningLines_eq a
  text_eq := by rw [warnings, toList_unlines, warningLines_eq]
  inOrder := by
    rw [filterMap_gap?_toldFindings]
    exact Gap.pairwise_atOrBefore_sort _
  fits _ := gutterWidth_fits
  tight := exists_gutterWidth_eq

theorem warnings_withGaps (a : Analysis) {gaps : List Gap} (h : gaps.Perm a.scan.gaps) :
    warnings (a.withGaps gaps) = warnings a := by
  have hlines : warningLines (a.withGaps gaps) = warningLines a := by
    have hsort : Gap.sort gaps = Gap.sort a.scan.gaps := Gap.sort_eq_sort_iff.2 h
    rw [warningLines_eq, warningLines_eq, toldFindings, toldFindings]
    change (((Gap.sort gaps).map Finding.gap ++ a.plainFindings).flatMap
      (findingLines (gutterWidth gaps))) ++ closing gaps = _
    rw [hsort, gutterWidth_eq_of_perm h, closing, closing, h.length_eq, h.isEmpty_eq]
  rw [warnings, warnings, hlines]

/-- **The law of the report.** A report tells every finding of a run exactly once: every gap, every
file that was left out, and every warning of the walk, of the plan and about the font, and behind
them one closing line if and only if there is a gap. So it has as many headlines as the command
counts warnings, and the closing line. The gaps come in the order of their places, with one gutter
that is as wide as the widest number of a line. And the text is the same in whatever order the gaps
were found. -/
theorem warnings_tells (a : Analysis) :
    (∃ gutter told, Tells a gutter told) ∧
    (∀ s : Summary, s.analysis? = some a → (warningLines a).countP (decide <| IsHeadline ·) =
      s.warningCount + (closing a.scan.gaps).length) ∧
    (closing a.scan.gaps).length = (if a.scan.gaps = [] then 0 else 1) ∧
    ∀ gaps : List Gap, gaps.Perm a.scan.gaps → warnings (a.withGaps gaps) = warnings a := by
  refine ⟨⟨_, _, tells_toldFindings a⟩, fun s hs => ?_, length_closing _,
    fun gaps => warnings_withGaps a⟩
  rw [countP_isHeadline_warningLines, length_closing, Summary.warningCount, hs]
  rfl

/-- A gap in a line. -/
def gapInLine (line : Nat) : Gap :=
  ⟨⟨"src/Name.tsx", line, 9, "<i a=\x7bname\x7d />"⟩, .expression, "identifier `name`"⟩

/-- An analysis with two gaps, the later one first, and one finding of each other kind. -/
def manyFindings : Analysis where
  scan :=
    { gaps := [gapInLine 12, gapInLine 2]
      skipped := [⟨"src/Gone.jsx", .unreadable "No such file or directory (os error 2)"⟩]
      walkWarnings := ["cannot read directory lib"] }
  index := NameMap.empty
  retained := NameMap.empty
  cssText := ""
  plan := ⟨⟨"i-min"⟩, ⟨"i.ttf"⟩, ⟨"i-min/i.css"⟩, [], [Glyph.codepointWarning "i-a" "zz"]⟩
  fontWarnings := ["cannot inspect font i.ttf"]

theorem warnings_tells_manyFindings :
    (∃ gutter told, Tells manyFindings gutter told ∧ gutter = 2) ∧
      (Summary.scan manyFindings).warningCount = 6 ∧
      (warningLines manyFindings).countP (decide <| IsHeadline ·) = 7 ∧
      warnings (manyFindings.withGaps [gapInLine 2, gapInLine 12]) = warnings manyFindings := by
  obtain ⟨⟨gutter, told, htells⟩, hcount, hclosing, hperm⟩ := warnings_tells manyFindings
  refine ⟨⟨gutter, told, htells, ?_⟩, by decide, ?_, hperm _ (List.Perm.swap _ _ _)⟩
  · have hfits : 2 ≤ gutter := htells.fits (gapInLine 12) (by decide)
    obtain ⟨g, hg, htight⟩ := htells.tight (by decide)
    have hlines : ∀ g ∈ manyFindings.scan.gaps, (toString g.context.line).length ≤ 2 := by decide
    exact Nat.le_antisymm (htight ▸ hlines g hg) hfits
  · rw [hcount (.scan manyFindings) rfl, hclosing]
    decide

end Report

end GlyphTrim
