import GlyphTrim.Proofs.ClassName.Evaluation
import GlyphTrim.Proofs.ClassName.Resolution

/-!
# Resolution is exact where the classes stand in the text

For an expression whose classes stand in the text, resolution leaves nothing unknown, and its
values are exactly the words of the strings to which the expression can evaluate
(`mem_values_resolve_iff`). The proof follows the expression: `slot_exact` is about a slot with its
prefix, `spans_exact` about the slots and the texts between them, where the words of the text meet
the words of the slots only in clear places, and `argument_exact` about an argument of a call.
-/

namespace GlyphTrim.ClassName

open Text Tsx

/-- The resolution knows exactly the names with the property. -/
def Exact (r : Resolution) (names : String → Prop) : Prop :=
  r.unknowns = [] ∧ ∀ t, t ∈ r.values ↔ names t

theorem slot_exact {e : Expr} (h : IsChoice e) (start : String) :
    Exact (resolveSlot start e) fun t => ∃ v, Yields e v ∧ t = start ++ v := by
  induction h with
  | string place value => exact ⟨rfl, by simp [resolveSlot, Yields]⟩
  | wrapped place how types h ih => simpa only [resolveSlot, Yields] using ih
  | conditional place test hy hn ihy ihn =>
    refine ⟨by simp [resolveSlot, ihy.1, ihn.1], fun t => ?_⟩
    rw [resolveSlot, Resolution.values_append, List.mem_append, ihy.2, ihn.2]
    simp only [Yields, or_and_right, exists_or]

theorem startsClear_tail_append {tail r : String} {rest : List Span} (h : ClosesSlot tail rest)
    (hr : SpansYield rest r) : StartsClear (tail ++ r).toList := by
  rw [String.toList_append]
  rcases h with ⟨rfl, hrest⟩ | h
  · obtain rfl := List.isEmpty_iff.1 hrest
    rw [SpansYield] at hr
    subst hr
    exact startsClear_nil
  · cases htail : tail.toList with
    | nil => simp [htail] at h
    | cons c cs => simpa [htail] using h

/-- **The words around a slot**: those of the text in front without the prefix, those of the slot
with its prefix, and those behind. -/
theorem mem_classTokens_around {before v tail t : String} (htail : StartsClear tail.toList) :
    t ∈ classTokens (before ++ (v ++ tail)) ↔
      t ∈ (words (withoutLastRun before.toList)).map String.ofList ∨
        t ∈ classTokens (String.ofList (lastRun before.toList) ++ v) ∨ t ∈ classTokens tail := by
  have hwords : words (before.toList ++ (v.toList ++ tail.toList)) =
      words (withoutLastRun before.toList) ++
        (words (lastRun before.toList ++ v.toList) ++ words tail.toList) :=
    calc words (before.toList ++ (v.toList ++ tail.toList))
        = words (withoutLastRun before.toList ++
            ((lastRun before.toList ++ v.toList) ++ tail.toList)) := by
          rw [List.append_assoc (lastRun _), ← List.append_assoc (withoutLastRun _),
            withoutLastRun_append_lastRun]
      _ = _ := by
          rw [words_append (.inl (endsClear_withoutLastRun _)), words_append (.inr htail)]
  simp only [classTokens, String.toList_append, String.toList_ofList, hwords, List.map_append,
    List.mem_append]

/-- The free tokens of the text before a slot that stands apart. -/
theorem freeTokens_of_opensSlot {first : Bool} {before : String}
    (hstart : first = true ∨ StartsClear before.toList) :
    freeTokens before (!first) true =
      (words (withoutLastRun before.toList)).map String.ofList := by
  rw [freeTokens_eq]
  rcases hstart with rfl | hstart
  · simp [inner]
  · cases first with
    | true => simp [inner]
    | false => simp [inner, dropWhile_of_startsClear (startsClear_withoutLastRun hstart)]

/-- **Slots that are laid out, with the texts between them, are exact**: the resolution of the text
`before` and of what follows knows the words of the whole. -/
theorem spans_exact {first : Bool} {before : String} {spans : List Span}
    (hstart : first = true ∨ StartsClear before.toList) (h : LaidOut first before spans) :
    Exact (.known (freeTokens before (!first) (!spans.isEmpty)) ++ resolveSpans before spans)
      fun t => ∃ r, SpansYield spans r ∧ t ∈ classTokens (before ++ r) := by
  induction spans generalizing first before with
  | nil =>
    have hfree : freeTokens before (!first) false = classTokens before := by
      rw [freeTokens_eq]
      rcases hstart with rfl | hstart
      · simp [inner, classTokens]
      · cases first <;> simp [inner, classTokens, dropWhile_of_startsClear hstart]
    exact ⟨rfl, fun t => by simp [resolveSpans, SpansYield, hfree]⟩
  | cons span rest ih =>
    obtain ⟨slot, tail⟩ := span
    rw [LaidOut] at h
    obtain ⟨hslot, hopens, hcloses, hrest⟩ := h
    obtain ⟨hslotUnknowns, hslotValues⟩ := slot_exact hslot (String.ofList (lastRun before.toList))
    obtain ⟨hrestUnknowns, hrestValues⟩ := ih (.inr (startsClear_of_closesSlot hcloses)) hrest
    obtain ⟨v₀, hv₀⟩ := exists_yields_of_isChoice hslot
    obtain ⟨r₀, hr₀⟩ := exists_spansYield hrest
    simp only [Resolution.unknowns_append, Resolution.unknowns_known, List.nil_append] at hrestUnknowns
    simp only [Resolution.values_append, Resolution.values_known, Bool.not_false,
      List.mem_append] at hrestValues
    -- a word of the whole belongs to the text in front, to the slot or to the rest
    have hwords : ∀ v r t, SpansYield rest r → (t ∈ classTokens (before ++ (v ++ tail ++ r)) ↔
        t ∈ (words (withoutLastRun before.toList)).map String.ofList ∨
          t ∈ classTokens (String.ofList (lastRun before.toList) ++ v) ∨
          t ∈ classTokens (tail ++ r)) := by
      intro v r t hr
      rw [String.append_assoc]
      exact mem_classTokens_around (startsClear_tail_append hcloses hr)
    rw [resolveSpans, inferPrefix_of_opensSlot hopens]
    refine ⟨by simp [hslotUnknowns, hrestUnknowns], fun t => ?_⟩
    simp only [Resolution.values_append, Resolution.values_known, Resolution.values_tokens,
      List.isEmpty_cons, Bool.not_false, freeTokens_of_opensSlot hstart, List.mem_append,
      List.mem_flatMap, hslotValues, SpansYield]
    constructor
    · rintro (ht | (⟨_, ⟨v, hv, rfl⟩, ht⟩ | ht) | ht)
      · exact ⟨_, ⟨v₀, r₀, hv₀, hr₀, rfl⟩, (hwords v₀ r₀ t hr₀).2 (.inl ht)⟩
      · exact ⟨_, ⟨v, r₀, hv, hr₀, rfl⟩, (hwords v r₀ t hr₀).2 (.inr (.inl ht))⟩
      · obtain ⟨r, hr, htr⟩ := (hrestValues t).1 (.inl ht)
        exact ⟨_, ⟨v₀, r, hv₀, hr, rfl⟩, (hwords v₀ r t hr).2 (.inr (.inr htr))⟩
      · obtain ⟨r, hr, htr⟩ := (hrestValues t).1 (.inr ht)
        exact ⟨_, ⟨v₀, r, hv₀, hr, rfl⟩, (hwords v₀ r t hr).2 (.inr (.inr htr))⟩
    · rintro ⟨_, ⟨v, r, hv, hr, rfl⟩, ht⟩
      rcases (hwords v r t hr).1 ht with ht | ht | ht
      · exact .inl ht
      · exact .inr (.inl (.inl ⟨_, ⟨v, hv, rfl⟩, ht⟩))
      · rcases (hrestValues t).2 ⟨r, hr, ht⟩ with h | h
        · exact .inr (.inl (.inr h))
        · exact .inr (.inr h)

theorem template_exact {head : String} {spans : List Span} (h : LaidOut true head spans) :
    Exact (resolveTemplate head spans) fun t =>
      ∃ r, SpansYield spans r ∧ t ∈ classTokens (head ++ r) := by
  have hspans := @spans_exact true head spans (.inl rfl) h
  rwa [Bool.not_true] at hspans

/-! ## Calls -/

/-- The argument can give a call these names: a string of its own, or some of its keys. -/
def GivesNames (e : Expr) (own : List String) : Prop :=
  (∃ v, Yields e v ∧ own = [v]) ∨
    ∃ place members, unwrap e = .object place members ∧
      own.Sublist (members.filterMap stringKey?)

theorem givesNames_iff_of_yields {e : Expr} (h : ∀ place members, unwrap e ≠ .object place members)
    (own : List String) : GivesNames e own ↔ ∃ v, Yields (unwrap e) v ∧ own = [v] := by
  simp only [GivesNames, h, false_and, exists_false, or_false, yields_unwrap]

/-- An object with string keys stands for the words of its keys. -/
theorem members_exact {members : List Member}
    (hm : ∀ m ∈ members, ∃ key value, m = .property (.string key) value) :
    (resolveAll resolveMember members).unknowns = [] ∧
      (resolveAll resolveMember members).values =
        (members.filterMap stringKey?).flatMap classTokens := by
  induction members with
  | nil => exact ⟨rfl, rfl⟩
  | cons m members ih =>
    obtain ⟨key, value, rfl⟩ := hm _ List.mem_cons_self
    obtain ⟨hunknowns, hvalues⟩ := ih fun m h => hm m (List.mem_cons_of_mem _ h)
    simp [resolveAll, resolveMember, stringKey?, hunknowns, hvalues]

theorem argument_exact {e : Expr} (h : IsNames (.plain e)) :
    (∃ own, GivesNames e own) ∧ Exact (resolveArgument (.plain e)) fun t =>
      ∃ own, GivesNames e own ∧ t ∈ own.flatMap classTokens := by
  cases h with
  | string h =>
    have hown := givesNames_iff_of_yields (e := e) (by simp [h])
    simp only [h, Yields] at hown
    refine ⟨⟨_, (hown _).2 ⟨_, rfl, rfl⟩⟩, ?_⟩
    simp [Exact, resolveArgument, h, hown]
  | template h hl =>
    have hown := givesNames_iff_of_yields (e := e) (by simp [h])
    simp only [h, Yields] at hown
    obtain ⟨r, hr⟩ := exists_spansYield hl
    obtain ⟨hunknowns, hvalues⟩ := template_exact hl
    refine ⟨⟨_, (hown _).2 ⟨_, ⟨r, hr, rfl⟩, rfl⟩⟩, ?_⟩
    rw [resolveArgument, h]
    refine ⟨hunknowns, fun t => (hvalues t).trans ?_⟩
    constructor
    · rintro ⟨r, hr, ht⟩
      exact ⟨_, (hown _).2 ⟨_, ⟨r, hr, rfl⟩, rfl⟩, by simpa using ht⟩
    · rintro ⟨own, hg, ht⟩
      obtain ⟨_, ⟨r, hr, rfl⟩, rfl⟩ := (hown own).1 hg
      exact ⟨r, hr, by simpa using ht⟩
  | object h hm =>
    rename_i place members
    obtain ⟨hunknowns, hvalues⟩ := members_exact hm
    have hown : ∀ own, GivesNames e own ↔ own.Sublist (members.filterMap stringKey?) := by
      intro own
      simp only [GivesNames, ← yields_unwrap e, h, Yields, Expr.object.injEq, false_and,
        exists_false, false_or]
      constructor
      · rintro ⟨_, _, ⟨rfl, rfl⟩, hsub⟩
        exact hsub
      · intro hsub
        exact ⟨_, _, ⟨rfl, rfl⟩, hsub⟩
    refine ⟨⟨_, (hown _).2 (List.Sublist.refl _)⟩, ?_⟩
    rw [resolveArgument, h]
    refine ⟨hunknowns, fun t => ?_⟩
    simp only [hvalues, hown]
    constructor
    · exact fun ht => ⟨_, List.Sublist.refl _, ht⟩
    · rintro ⟨own, hsub, ht⟩
      obtain ⟨name, hname, ht⟩ := List.mem_flatMap.1 ht
      exact List.mem_flatMap.2 ⟨name, hsub.subset hname, ht⟩

theorem arguments_exact {args : List Item} (h : ∀ a ∈ args, IsNames a) :
    (∃ names, ArgumentsYield args names) ∧ Exact (resolveAll resolveArgument args) fun t =>
      ∃ names, ArgumentsYield args names ∧ t ∈ names.flatMap classTokens := by
  induction args with
  | nil => exact ⟨⟨[], by rw [ArgumentsYield]⟩, by simp [Exact, resolveAll, ArgumentsYield]⟩
  | cons a args ih =>
    obtain ⟨⟨more₀, hmore₀⟩, hrestUnknowns, hrestValues⟩ :=
      ih fun a ha => h a (List.mem_cons_of_mem _ ha)
    obtain ⟨e, rfl⟩ : ∃ e, a = .plain e := by
      cases h a List.mem_cons_self <;> exact ⟨_, rfl⟩
    obtain ⟨⟨own₀, hown₀⟩, hunknowns, hvalues⟩ := argument_exact (h _ List.mem_cons_self)
    have hcons : ∀ names, ArgumentsYield (.plain e :: args) names ↔
        ∃ own more, ArgumentsYield args more ∧ names = own ++ more ∧ GivesNames e own :=
      fun names => by rw [ArgumentsYield]; rfl
    refine ⟨⟨_, (hcons _).2 ⟨own₀, more₀, hmore₀, rfl, hown₀⟩⟩, ?_, fun t => ?_⟩
    · rw [resolveAll, Resolution.unknowns_append, hunknowns, hrestUnknowns, List.append_nil]
    · rw [resolveAll, Resolution.values_append, List.mem_append, hvalues, hrestValues]
      constructor
      · rintro (⟨own, hown, ht⟩ | ⟨more, hmore, ht⟩)
        · exact ⟨_, (hcons _).2 ⟨own, more₀, hmore₀, rfl, hown⟩, by
            rw [List.flatMap_append]; exact List.mem_append_left _ ht⟩
        · exact ⟨_, (hcons _).2 ⟨own₀, more, hmore, rfl, hown₀⟩, by
            rw [List.flatMap_append]; exact List.mem_append_right _ ht⟩
      · rintro ⟨names, hnames, ht⟩
        obtain ⟨own, more, hmore, rfl, hown⟩ := (hcons names).1 hnames
        rw [List.flatMap_append, List.mem_append] at ht
        exact ht.imp (fun ht => ⟨own, hown, ht⟩) fun ht => ⟨more, hmore, ht⟩

/-! ## Expressions -/

theorem resolve_exact {e : Expr} (h : Resolvable e) :
    Exact (resolve e) fun t => ∃ s, Yields e s ∧ t ∈ classTokens s := by
  induction h with
  | string place value => simp [Exact, resolve, Yields]
  | wrapped place how types h ih => simpa only [resolve, Yields] using ih
  | conditional place test hy hn ihy ihn =>
    refine ⟨by simp [resolve, ihy.1, ihn.1], fun t => ?_⟩
    rw [resolve, Resolution.values_append, List.mem_append, ihy.2, ihn.2]
    simp only [Yields, or_and_right, exists_or]
  | template place head h =>
    obtain ⟨hunknowns, hvalues⟩ := template_exact h
    refine ⟨by rw [resolve]; exact hunknowns, fun t => ?_⟩
    rw [resolve, hvalues]
    constructor
    · rintro ⟨r, hr, ht⟩
      exact ⟨head ++ r, by rw [Yields]; exact ⟨r, hr, rfl⟩, ht⟩
    · rintro ⟨s, hs, ht⟩
      rw [Yields] at hs
      obtain ⟨r, hr, rfl⟩ := hs
      exact ⟨r, hr, ht⟩
  | call place callee types h =>
    obtain ⟨-, hunknowns, hvalues⟩ := arguments_exact h
    refine ⟨by rw [resolve]; exact hunknowns, fun t => ?_⟩
    rw [resolve, hvalues]
    constructor
    · rintro ⟨names, hnames, ht⟩
      exact ⟨joinNames names, by rw [Yields]; exact ⟨names, hnames, rfl⟩,
        by rwa [classTokens_joinNames]⟩
    · rintro ⟨s, hs, ht⟩
      rw [Yields] at hs
      obtain ⟨names, hnames, rfl⟩ := hs
      exact ⟨names, hnames, by rwa [classTokens_joinNames] at ht⟩

/-- **Resolution is exact where the classes stand in the text**: nothing is unknown, and the values
are the words of the strings to which the expression can evaluate. -/
theorem mem_values_resolve_iff (e : Expr) (h : Resolvable e) :
    (resolve e).unknowns = [] ∧
      ∀ t, t ∈ (resolve e).values ↔ ∃ s, Yields e s ∧ t ∈ classTokens s :=
  resolve_exact h

/-- The call ``cx("icon", { "icon-spin": busy }, `icon icon-${busy ? " on" : ""} big`)``. -/
def iconCall : Expr :=
  .call 0 (.name 0 "cx")
    [.plain (.string 3 "icon"),
      .plain (.object 11 [.property (.string "icon-spin") (.name 26 "busy")]),
      .plain (.template 34 "icon icon-"
        [.mk (.conditional 47 (.name 47 "busy") (.string 54 " on") (.string 62 "")) " big"])] []

theorem resolvable_iconCall : Resolvable iconCall := by
  refine .call _ _ _ fun a ha => ?_
  simp only [List.mem_cons, List.not_mem_nil, or_false] at ha
  rcases ha with rfl | rfl | rfl
  · exact .string rfl
  · exact .object rfl (by simp)
  · refine .template rfl ⟨.conditional _ _ (.string _ _) (.string _ _), ?_, ?_, trivial⟩ <;> decide

theorem mem_values_resolve_iconCall :
    Resolvable iconCall ∧ (resolve iconCall).unknowns = [] ∧
      ∃ s, Yields iconCall s ∧ "icon-" ∈ classTokens s :=
  ⟨resolvable_iconCall, (mem_values_resolve_iff iconCall resolvable_iconCall).1,
    ((mem_values_resolve_iff iconCall resolvable_iconCall).2 "icon-").1 (by decide)⟩

end GlyphTrim.ClassName
