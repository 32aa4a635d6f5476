import GlyphTrim.Css.Sheet
import Mathlib.Data.List.Basic

/-!
# Lists of selectors

A list of selectors falls apart at the commas that stand in no bracket and no string and behind no
backslash. What is put into it goes into the selector around the place, unless it parts selectors,
opens or closes a bracket or a string, or escapes something (`splitSelectors_append`,
`splitSelectors_append_of_not_mark`). The selectors are the texts between these commas
(`splitSelectors_eq_between`), so a comma behind a text that is complete in itself puts two lists
together (`selectorList_append_comma`).
-/

namespace GlyphTrim.Css

open Text

/-! ## The selector around a place -/

variable {s : SelectorState} {u v a b : List Char} {front back : List (List Char)}

theorem splitSelectors_ne_nil (s : SelectorState) (cs : List Char) : splitSelectors s cs ≠ [] := by
  cases cs with
  | nil => exact List.cons_ne_nil _ _
  | cons c cs =>
    rw [splitSelectors]
    split
    · exact List.cons_ne_nil _ _
    · split <;> exact List.cons_ne_nil _ _

theorem splitSelectors_cons_of_splits {c : Char} (h : s.splits c = true) (cs : List Char) :
    splitSelectors s (c :: cs) = [] :: splitSelectors (s.step c) cs := by
  rw [splitSelectors, if_pos h]

theorem splitSelectors_cons_of_not_splits {c : Char} (h : s.splits c = false) {cs piece : List Char}
    {pieces : List (List Char)} (hcs : splitSelectors (s.step c) cs = piece :: pieces) :
    splitSelectors s (c :: cs) = (c :: piece) :: pieces := by
  rw [splitSelectors, h, if_neg Bool.false_ne_true, hcs]

/-- The last selector in front of a place goes on with the first one behind it. -/
theorem splitSelectors_append (hu : splitSelectors s u = front ++ [a])
    (hv : splitSelectors (u.foldl SelectorState.step s) v = b :: back) :
    splitSelectors s (u ++ v) = front ++ (a ++ b) :: back := by
  induction u generalizing s front a with
  | nil =>
    have hnil : [] ++ [[]] = front ++ [a] := hu
    obtain ⟨rfl, rfl⟩ := List.append_singleton_inj.1 hnil
    exact hv
  | cons c u ih =>
    rw [List.cons_append]
    obtain ⟨front', a', hu'⟩ := (List.eq_nil_or_concat' (splitSelectors (s.step c) u)).resolve_left
      (splitSelectors_ne_nil _ _)
    have hrest := ih hu' hv
    cases hsplits : s.splits c with
    | true =>
      rw [splitSelectors_cons_of_splits hsplits, hu', ← List.cons_append] at hu
      obtain ⟨rfl, rfl⟩ := List.append_singleton_inj.1 hu
      rw [splitSelectors_cons_of_splits hsplits, hrest]
      rfl
    | false =>
      cases front' with
      | nil =>
        have hsingle : [] ++ [c :: a'] = front ++ [a] :=
          (splitSelectors_cons_of_not_splits hsplits hu').symm.trans hu
        obtain ⟨rfl, rfl⟩ := List.append_singleton_inj.1 hsingle
        exact splitSelectors_cons_of_not_splits hsplits hrest
      | cons piece front' =>
        have hconcat : ((c :: piece) :: front') ++ [a'] = front ++ [a] :=
          (splitSelectors_cons_of_not_splits hsplits hu').symm.trans hu
        obtain ⟨rfl, rfl⟩ := List.append_singleton_inj.1 hconcat
        exact splitSelectors_cons_of_not_splits hsplits hrest

/-- The characters that part selectors, open or close a bracket or a string, or escape others. -/
def selectorMarks : List Char := [',', '\\', '"', '\'', '(', '[', ')', ']']

theorem step_of_not_mark {c : Char} (hs : s.escaped = false) (hc : c ∉ selectorMarks) :
    s.step c = s ∧ s.splits c = false := by
  simp only [selectorMarks, List.mem_cons, List.not_mem_nil, or_false, not_or] at hc
  obtain ⟨hcomma, hslash, hdouble, hsingle, hround, hsquare, hround', hsquare'⟩ := hc
  constructor
  · simp [SelectorState.step, hs, hslash, hdouble, hsingle, hround, hsquare, hround', hsquare']
  · simp [SelectorState.splits, hcomma]

/-- Other characters belong to the selector behind them. -/
theorem splitSelectors_append_of_not_mark (hs : s.escaped = false) {k : List Char}
    (hk : ∀ c ∈ k, c ∉ selectorMarks) (hv : splitSelectors s v = b :: back) :
    splitSelectors s (k ++ v) = (k ++ b) :: back := by
  induction k with
  | nil => exact hv
  | cons c k ih =>
    obtain ⟨hstep, hsplits⟩ := step_of_not_mark hs (hk c List.mem_cons_self)
    have hrest := ih fun d hd => hk d (List.mem_cons_of_mem c hd)
    rw [← hstep] at hrest
    exact splitSelectors_cons_of_not_splits hsplits hrest

/-! ## The commas that part selectors -/

theorem splits_iff {c : Char} : s.splits c = true ↔ c = ',' ∧ s = {} := by
  obtain ⟨depth, quote, escaped⟩ := s
  cases quote <;> simp [SelectorState.splits, and_assoc]

/-- The positions of the commas that part selectors, in a scan that begins in a state. -/
def topCommas (s : SelectorState) (cs : List Char) : List Nat :=
  (List.range cs.length).filter fun i =>
    cs[i]? = some ',' ∧ (cs.take i).foldl SelectorState.step s = {}

/-- The texts between the characters at some positions of a text, from the position `start` on. -/
def between (start : Nat) : List Nat → List Char → List (List Char)
  | [], cs => [cs.drop start]
  | i :: is, cs => (cs.take i).drop start :: between (i + 1) is cs

theorem topCommas_cons (s : SelectorState) (c : Char) (cs : List Char) :
    topCommas s (c :: cs) = (if s.splits c then [0] else []) ++
      (topCommas (s.step c) cs).map Nat.succ := by
  rw [topCommas, List.length_cons, List.range_succ_eq_map, List.filter_cons, List.filter_map]
  have hhead : ((c :: cs)[0]? = some ',' ∧
      ((c :: cs).take 0).foldl SelectorState.step s = {}) ↔ s.splits c = true := by
    simp [splits_iff]
  simp only [hhead, Bool.decide_eq_true]
  split <;> rfl

theorem between_map_succ (k : Nat) (is : List Nat) (c : Char) (cs : List Char) :
    between (k + 1) (is.map Nat.succ) (c :: cs) = between k is cs := by
  induction is generalizing k with
  | nil => rfl
  | cons i is ih => rw [List.map_cons, between, between, ← ih]; rfl

/-- A character in front belongs to the first text. -/
theorem between_zero_map_succ {is : List Nat} {cs piece : List Char} {pieces : List (List Char)}
    (h : between 0 is cs = piece :: pieces) (c : Char) :
    between 0 (is.map Nat.succ) (c :: cs) = (c :: piece) :: pieces := by
  cases is with
  | nil =>
    obtain ⟨rfl, rfl⟩ := List.cons.inj h
    rfl
  | cons i is =>
    obtain ⟨rfl, rfl⟩ := List.cons.inj h
    rw [List.map_cons, between, between_map_succ]
    rfl

/-- **The pieces of a list of selectors** are the texts between the commas that part selectors. -/
theorem splitSelectors_eq_between (s : SelectorState) (cs : List Char) :
    splitSelectors s cs = between 0 (topCommas s cs) cs := by
  induction cs generalizing s with
  | nil => rfl
  | cons c cs ih =>
    rw [topCommas_cons]
    cases hsplits : s.splits c with
    | true =>
      rw [splitSelectors_cons_of_splits hsplits, ih, if_pos rfl, List.singleton_append, between,
        between_map_succ]
      rfl
    | false =>
      obtain ⟨piece, pieces, hcs⟩ :=
        List.exists_cons_of_ne_nil (splitSelectors_ne_nil (s.step c) cs)
      rw [splitSelectors_cons_of_not_splits hsplits hcs, if_neg Bool.false_ne_true, List.nil_append]
      exact (between_zero_map_succ ((ih _).symm.trans hcs) c).symm

theorem splitSelectors_of_topCommas_eq_nil {cs : List Char} (h : topCommas s cs = []) :
    splitSelectors s cs = [cs] := by
  rw [splitSelectors_eq_between, h]
  rfl

theorem splitSelectors_of_not_comma (s : SelectorState) {e : List Char} (he : ',' ∉ e) :
    splitSelectors s e = [e] := by
  refine splitSelectors_of_topCommas_eq_nil (List.filter_eq_nil_iff.2 fun i _ hi => he ?_)
  exact List.mem_of_getElem? (of_decide_eq_true hi).1

/-! ## Texts that are complete in themselves -/

/-- A text that leaves a scan of selectors as it found it: all brackets and strings in it are
closed, and no backslash stands at its end. -/
def SelfContained (cs : List Char) : Prop := cs.foldl SelectorState.step {} = {}

instance (cs : List Char) : Decidable (SelfContained cs) := inferInstanceAs (Decidable (_ = _))

theorem splitSelectors_append_comma (h : SelfContained u) (v : List Char) :
    splitSelectors {} (u ++ ',' :: v) = splitSelectors {} u ++ splitSelectors {} v := by
  obtain ⟨front, a, hu⟩ := (List.eq_nil_or_concat' (splitSelectors {} u)).resolve_left
    (splitSelectors_ne_nil {} u)
  have hcomma : splitSelectors (u.foldl SelectorState.step {}) (',' :: v) =
      [] :: splitSelectors {} v := by
    rw [h]
    exact splitSelectors_cons_of_splits rfl v
  rw [splitSelectors_append hu hcomma, hu, List.append_nil, List.append_assoc]
  rfl

theorem ofList_ne_empty_iff {cs : List Char} : String.ofList cs ≠ "" ↔ cs.isEmpty = false := by
  rw [ne_eq, ← String.toList_inj, String.toList_ofList, List.isEmpty_eq_false_iff]
  rfl

/-- The selectors of a list are its pieces without the white space around them. -/
theorem selectorList_eq (t : String) : selectorList t =
    ((splitSelectors {} t.toList).map fun piece => trim (String.ofList piece)).filter
      (· ≠ "") := by
  rw [selectorList, List.filter_map, List.filter_map, List.map_map]
  have htrim : (fun piece => trim (String.ofList piece)) = String.ofList ∘ trimChars := by
    funext piece
    rw [trim, String.toList_ofList, Function.comp_apply]
  rw [htrim]
  refine congrArg (List.map _) (List.filter_congr fun piece _ => ?_)
  rw [Function.comp_apply, Function.comp_apply, Bool.eq_iff_iff, decide_eq_true_iff,
    Function.comp_apply, ofList_ne_empty_iff, Bool.not_eq_true']

/-- **Selectors are what stands between top-level commas**: a comma behind a text that is complete
in itself puts two lists of selectors together, a text without such commas is one selector if it is
not blank, and in general there is one selector for each text between two of them that is not
blank. -/
theorem selectorList_append_comma :
    (∀ p q : String, SelfContained p.toList →
      selectorList (p ++ "," ++ q) = selectorList p ++ selectorList q) ∧
    (∀ t : String, topCommas {} t.toList = [] →
      selectorList t = if trim t = "" then [] else [trim t]) ∧
    ∀ t : String, selectorList t =
      ((between 0 (topCommas {} t.toList) t.toList).map fun piece =>
        trim (String.ofList piece)).filter (· ≠ "") := by
  refine ⟨fun p q h => ?_, fun t h => ?_, fun t => ?_⟩
  · have htext : (p ++ "," ++ q).toList = p.toList ++ ',' :: q.toList := by simp
    rw [selectorList_eq, htext, splitSelectors_append_comma h, List.map_append, List.filter_append,
      ← selectorList_eq, ← selectorList_eq]
  · rw [selectorList_eq, splitSelectors_of_topCommas_eq_nil h, List.map_singleton,
      String.ofList_toList, List.filter_singleton]
    by_cases hblank : trim t = "" <;> simp [hblank]
  · rw [selectorList_eq, splitSelectors_eq_between]

/-- A bracket hides the comma in it, and a string the brackets. -/
theorem selectorList_append_comma_nested :
    SelfContained ":is(.a, .b):before".toList ∧
      topCommas {} ":is(.a, .b):before".toList = [] ∧
      selectorList (":is(.a, .b):before" ++ "," ++ " .c[title=\"x,(y\"]") =
        [":is(.a, .b):before", ".c[title=\"x,(y\"]"] := by
  have hself : SelfContained ":is(.a, .b):before".toList := by decide
  have hfirst : topCommas {} ":is(.a, .b):before".toList = [] := by decide
  have hsecond : topCommas {} " .c[title=\"x,(y\"]".toList = [] := by decide
  refine ⟨hself, hfirst, ?_⟩
  rw [selectorList_append_comma.1 _ _ hself, selectorList_append_comma.2.1 _ hfirst,
    selectorList_append_comma.2.1 _ hsecond]
  decide

end GlyphTrim.Css
