import GlyphTrim.Proofs.Css.Outline

/-!
# The entries of a stylesheet

A stylesheet can be written as a table: one entry for each of its nodes, in the order of the
document, with the at-rules around it. The table says all there is in a stylesheet
(`Sheet.eq_of_entries_eq`), so an operation on stylesheets can be told by what it does to the
entries. Cutting the at-rules with a name out strikes their entries and the entries of what stands
in them, and touches no other entry (`Sheet.entries_takeAtRules`).
-/

namespace GlyphTrim.Css

/-- A node without the nodes in its block. -/
abbrev Own := Rule ⊕ AtRule

/-- A node of a stylesheet, and where it stands. -/
structure Entry where
  /-- The at-rules around the node, from the outside in. -/
  around : List AtRule
  own : Own
  deriving DecidableEq

namespace Entry

/-- Whether the node is an at-rule with a name. -/
def isCalled (name : String) (e : Entry) : Bool :=
  match e.own with
  | .inl _ => false
  | .inr head => Text.sameIgnoringCase head.name name

/-- Whether the node stands in an at-rule with a name. -/
def isBeneath (name : String) (e : Entry) : Bool :=
  e.around.any fun head => Text.sameIgnoringCase head.name name

/-- Whether the node is no at-rule with a name, and stands in none. -/
def staysWithout (name : String) (e : Entry) : Bool := !e.isCalled name && !e.isBeneath name

/-- The rule that the node is. -/
def rule? (e : Entry) : Option Rule := e.own.getLeft?

end Entry

/-- The node without the nodes in its block. -/
def Node.own : Node → Own
  | .rule r => .inl r
  | .atRule head _ => .inr head

mutual

/-- The entries of a node inside at-rules. -/
def Node.entries (around : List AtRule) : Node → List Entry
  | .rule r => [⟨around, .inl r⟩]
  | .atRule head children => ⟨around, .inr head⟩ :: Node.entriesOf (around ++ [head]) children

/-- The entries of nodes inside at-rules. -/
def Node.entriesOf (around : List AtRule) : List Node → List Entry
  | [] => []
  | n :: ns => n.entries around ++ Node.entriesOf around ns

end

/-- The entries of a stylesheet, in the order of the document. -/
def Sheet.entries (s : Sheet) : List Entry := Node.entriesOf [] s.nodes

theorem Node.entriesOf_eq_flatMap (around : List AtRule) (ns : List Node) :
    Node.entriesOf around ns = ns.flatMap (Node.entries around) := by
  induction ns with
  | nil => rfl
  | cons n ns ih => rw [Node.entriesOf, ih, List.flatMap_cons]

/-- The node itself has the first entry. -/
theorem Node.entries_eq_cons (around : List AtRule) (n : Node) :
    ∃ more, n.entries around = ⟨around, n.own⟩ :: more := by
  cases n with
  | rule r => exact ⟨[], rfl⟩
  | atRule head children => exact ⟨_, rfl⟩

mutual

theorem Node.around_prefix_of_mem_entries {e : Entry} : ∀ {around : List AtRule} {n : Node},
    e ∈ n.entries around → around <+: e.around
  | around, .rule r, he => by
    rw [Node.entries, List.mem_singleton] at he
    exact he ▸ List.prefix_rfl
  | around, .atRule head children, he => by
    rw [Node.entries, List.mem_cons] at he
    rcases he with rfl | he
    · exact List.prefix_rfl
    · exact (List.prefix_append _ _).trans (Node.around_prefix_of_mem_entriesOf he)

/-- What stands inside at-rules has them around it. -/
theorem Node.around_prefix_of_mem_entriesOf {e : Entry} :
    ∀ {around : List AtRule} {ns : List Node}, e ∈ Node.entriesOf around ns → around <+: e.around
  | around, [], he => absurd he List.not_mem_nil
  | around, n :: ns, he => by
    rw [Node.entriesOf, List.mem_append] at he
    rcases he with he | he
    · exact Node.around_prefix_of_mem_entries he
    · exact Node.around_prefix_of_mem_entriesOf he

end

/-! ## A stylesheet from its entries -/

/-- The entries of a block go as far as the at-rules around them are more than those around the
nodes that follow the block. -/
theorem takeWhile_entriesOf (around : List AtRule) (head : AtRule) (children ns : List Node) :
    (Node.entriesOf (around ++ [head]) children ++ Node.entriesOf around ns).takeWhile
        (around.length < ·.around.length) =
      Node.entriesOf (around ++ [head]) children := by
  have hends : (Node.entriesOf around ns).takeWhile (around.length < ·.around.length) = [] := by
    cases ns with
    | nil => rfl
    | cons n ns =>
      obtain ⟨more, hmore⟩ := Node.entries_eq_cons around n
      rw [Node.entriesOf, hmore, List.cons_append, List.takeWhile_cons_of_neg (by simp)]
  rw [List.takeWhile_append_of_pos, hends, List.append_nil]
  intro e he
  have hle := (Node.around_prefix_of_mem_entriesOf he).length_le
  rw [List.length_append, List.length_singleton] at hle
  exact decide_eq_true hle

/-- Nodes are told by their entries. -/
theorem Node.eq_of_entriesOf_eq {around : List AtRule} : ∀ {ns ms : List Node},
    Node.entriesOf around ns = Node.entriesOf around ms → ns = ms
  | [], [], _ => rfl
  | [], m :: ms, h => by
    obtain ⟨more, hmore⟩ := Node.entries_eq_cons around m
    rw [Node.entriesOf, Node.entriesOf, hmore] at h
    exact absurd h (List.cons_ne_nil _ _).symm
  | n :: ns, [], h => by
    obtain ⟨more, hmore⟩ := Node.entries_eq_cons around n
    rw [Node.entriesOf, Node.entriesOf, hmore] at h
    exact absurd h (List.cons_ne_nil _ _)
  | .rule r :: ns, .rule r' :: ms, h => by
    simp only [Node.entriesOf, Node.entries, List.singleton_append, List.cons.injEq,
      Entry.mk.injEq, Sum.inl.injEq, true_and] at h
    rw [h.1, Node.eq_of_entriesOf_eq h.2]
  | .rule r :: ns, .atRule head children :: ms, h => by
    simp [Node.entriesOf, Node.entries] at h
  | .atRule head children :: ns, .rule r :: ms, h => by
    simp [Node.entriesOf, Node.entries] at h
  | .atRule head children :: ns, .atRule head' children' :: ms, h => by
    simp only [Node.entriesOf, Node.entries, List.cons_append, List.cons.injEq, Entry.mk.injEq,
      Sum.inr.injEq, true_and] at h
    obtain ⟨rfl, hrest⟩ := h
    -- the entries of the block are those with more at-rules around them
    have hchildren := congrArg (List.takeWhile (around.length < ·.around.length)) hrest
    rw [takeWhile_entriesOf, takeWhile_entriesOf] at hchildren
    rw [hchildren, List.append_cancel_left_eq] at hrest
    rw [Node.eq_of_entriesOf_eq hchildren, Node.eq_of_entriesOf_eq hrest]

/-- **The entries say all there is** in a stylesheet. -/
theorem Sheet.eq_of_entries_eq {s t : Sheet} (h : s.entries = t.entries) : s = t := by
  obtain ⟨ns⟩ := s
  obtain ⟨ms⟩ := t
  exact congrArg Sheet.mk (Node.eq_of_entriesOf_eq h)

/-! ## What stands in a stylesheet -/

theorem Node.exists_entry_of_at? {n m : Node} {l : Address} (h : n.at? l = some m)
    (around : List AtRule) : ∃ e ∈ n.entries around, e.own = m.own := by
  induction l generalizing n around with
  | nil =>
    obtain rfl := Option.some.inj h
    obtain ⟨more, hmore⟩ := Node.entries_eq_cons around n
    exact ⟨⟨around, n.own⟩, hmore ▸ List.mem_cons_self, rfl⟩
  | cons i l ih =>
    rw [Node.at?_cons] at h
    obtain ⟨c, hc, hm⟩ := Option.bind_eq_some_iff.1 h
    cases n with
    | rule r => exact absurd hc (by simp [Node.children])
    | atRule head children =>
      obtain ⟨e, he, hown⟩ := ih hm (around ++ [head])
      refine ⟨e, List.mem_cons_of_mem _ ?_, hown⟩
      rw [Node.entriesOf_eq_flatMap]
      exact List.mem_flatMap.2 ⟨c, List.mem_of_getElem? hc, he⟩

/-- What stands at an address has an entry. -/
theorem Sheet.exists_entry_of_at? {s : Sheet} {n : Node} {l : Address} (h : s.at? l = some n) :
    ∃ e ∈ s.entries, e.own = n.own := by
  cases l with
  | nil => exact absurd h (by simp [Sheet.at?])
  | cons i l =>
    obtain ⟨m, hm, hn⟩ := Option.bind_eq_some_iff.1 h
    obtain ⟨e, he, hown⟩ := Node.exists_entry_of_at? hn []
    refine ⟨e, ?_, hown⟩
    rw [Sheet.entries, Node.entriesOf_eq_flatMap]
    exact List.mem_flatMap.2 ⟨m, List.mem_of_getElem? hm, he⟩

theorem Entry.isCalled_of_own_eq {e : Entry} {n : Node} (h : e.own = n.own) (name : String) :
    e.isCalled name = n.isCalled name := by
  rw [Entry.isCalled, h]
  cases n <;> rfl

mutual

theorem Node.filterMap_entries (around : List AtRule) : ∀ n : Node,
    (n.entries around).filterMap Entry.rule? = n.rules
  | .rule r => rfl
  | .atRule head children => by
    rw [Node.entries, Node.rules, ← Node.filterMap_entriesOf (around ++ [head]) children]
    rfl

theorem Node.filterMap_entriesOf (around : List AtRule) : ∀ ns : List Node,
    (Node.entriesOf around ns).filterMap Entry.rule? = Node.rulesOfAll ns
  | [] => rfl
  | n :: ns => by
    rw [Node.entriesOf, List.filterMap_append, Node.filterMap_entries around n,
      Node.filterMap_entriesOf around ns, Node.rulesOfAll]

end

/-- The rules of a stylesheet are its entries that are rules. -/
theorem Sheet.filterMap_entries (s : Sheet) : s.entries.filterMap Entry.rule? = s.rules :=
  Node.filterMap_entriesOf [] s.nodes

/-! ## Striking entries -/

section

variable {name : String} {around : List AtRule}

/-- In an at-rule with the name all entries are struck. -/
theorem filter_entriesOf_of_called {head : AtRule}
    (hcalled : Text.sameIgnoringCase head.name name = true) (ns : List Node) :
    (Node.entriesOf (around ++ [head]) ns).filter (Entry.staysWithout name) = [] := by
  refine List.filter_eq_nil_iff.2 fun e he => ?_
  have hmem : head ∈ e.around :=
    (Node.around_prefix_of_mem_entriesOf he).subset (List.mem_append_right _ List.mem_cons_self)
  have hbeneath : e.isBeneath name = true := List.any_eq_true.2 ⟨head, hmem, hcalled⟩
  simp [Entry.staysWithout, hbeneath]

mutual

theorem Node.entriesOf_cut : ∀ {around : List AtRule},
    (around.any fun head => Text.sameIgnoringCase head.name name) = false → ∀ n : Node,
      Node.entriesOf around (n.cut name).1 = (n.entries around).filter (Entry.staysWithout name)
  | around, hout, .rule r => by
    rw [Node.cut, Node.entries, List.filter_cons_of_pos]
    · rfl
    · simp [Entry.staysWithout, Entry.isCalled, Entry.isBeneath, hout]
  | around, hout, .atRule head children => by
    rw [Node.cut, Node.entries]
    split
    · rename_i hcalled
      rw [List.filter_cons_of_neg (by simp [Entry.staysWithout, Entry.isCalled, hcalled]),
        filter_entriesOf_of_called hcalled]
      rfl
    · rename_i hcalled
      rw [Bool.not_eq_true] at hcalled
      rw [List.filter_cons_of_pos
          (by simp [Entry.staysWithout, Entry.isCalled, Entry.isBeneath, hcalled, hout]),
        ← Node.entriesOf_cutAll (by simp [hout, hcalled]) children]
      simp [Node.entriesOf, Node.entries]

theorem Node.entriesOf_cutAll : ∀ {around : List AtRule},
    (around.any fun head => Text.sameIgnoringCase head.name name) = false → ∀ ns : List Node,
      Node.entriesOf around (Node.cutAll name ns).1 =
        (Node.entriesOf around ns).filter (Entry.staysWithout name)
  | around, _, [] => rfl
  | around, hout, n :: ns => by
    rw [Node.cutAll, Node.entriesOf, List.filter_append, ← Node.entriesOf_cut hout n,
      ← Node.entriesOf_cutAll hout ns]
    simp only [Node.entriesOf_eq_flatMap, List.flatMap_append]

end

/-- **Cutting at-rules out** strikes their entries and those of what stands in them. -/
theorem Sheet.entries_takeAtRules (s : Sheet) (name : String) :
    (s.takeAtRules name).1.entries = s.entries.filter (Entry.staysWithout name) :=
  Node.entriesOf_cutAll rfl s.nodes

/-- What is left holds no at-rule with the name. -/
theorem Sheet.isCalled_eq_false_of_at?_takeAtRules {s : Sheet} {n : Node} {l : Address}
    (h : (s.takeAtRules name).1.at? l = some n) : n.isCalled name = false := by
  obtain ⟨e, he, hown⟩ := Sheet.exists_entry_of_at? h
  rw [Sheet.entries_takeAtRules, List.mem_filter, Entry.staysWithout, Bool.and_eq_true,
    Bool.not_eq_true', Entry.isCalled_of_own_eq hown] at he
  exact he.2.1

/-- A second cut finds nothing. -/
theorem Sheet.takeAtRules_takeAtRules (s : Sheet) (name : String) :
    (s.takeAtRules name).1.takeAtRules name = ((s.takeAtRules name).1, []) := by
  refine Prod.ext (Sheet.eq_of_entries_eq ?_) ?_
  · rw [Sheet.entries_takeAtRules, Sheet.entries_takeAtRules, List.filter_filter]
    simp only [Bool.and_self]
  · rw [← Sheet.filter_outline, List.filter_eq_nil_iff]
    intro n hn
    obtain ⟨⟨l, n⟩, hl, rfl⟩ := List.mem_map.1 hn
    rw [Sheet.isCalled_eq_false_of_at?_takeAtRules (Sheet.mem_outline_iff.1 hl).1]
    exact Bool.false_ne_true

/-- The rules that are left are those that stand in no at-rule with the name. -/
theorem Sheet.rules_takeAtRules (s : Sheet) (name : String) :
    (s.takeAtRules name).1.rules =
      (s.entries.filter fun e => !e.isBeneath name).filterMap Entry.rule? := by
  rw [← Sheet.filterMap_entries, Sheet.entries_takeAtRules, List.filterMap_filter,
    List.filterMap_filter]
  congr 1
  funext ⟨around, own⟩
  cases own with
  | inl r => simp [Entry.staysWithout, Entry.isCalled]
  | inr head => simp [Entry.rule?]

end

/-- **A clean cut.** What is left of a stylesheet holds no at-rule with the name. What is cut out
are the outermost at-rules with the name, as they are and in the order of the document. The entries
that are left are just those of the nodes that are no such at-rule and stand in none, with all that
they say and in their order, which tells what is left. So the rules that are left are those that
stand in no such at-rule, and a second cut finds nothing and changes nothing. -/
theorem Sheet.takeAtRules_cuts (s : Sheet) (name : String) :
    let (left, taken) := s.takeAtRules name
    left.IsSurvey (fun _ n => n.isCalled name = true) [] ∧
    (∃ found, s.IsSurvey (fun l n => n.isCalled name = true ∧ ¬Beneath s.at? name l) found ∧
      taken = found.map (·.2)) ∧
    (∀ t : Sheet, t = left ↔ t.entries = s.entries.filter (Entry.staysWithout name)) ∧
    s.rules = s.entries.filterMap Entry.rule? ∧
    left.rules = (s.entries.filter fun e => !e.isBeneath name).filterMap Entry.rule? ∧
    left.takeAtRules name = (left, []) := by
  refine ⟨⟨List.Pairwise.nil, fun l n => iff_of_false List.not_mem_nil ?_⟩,
    ⟨_, s.isSurvey_filter_outline (fun _ => Iff.rfl) name, ?_⟩, fun t => ⟨?_, fun h => ?_⟩,
    s.filterMap_entries.symm, s.rules_takeAtRules name, s.takeAtRules_takeAtRules name⟩
  · rintro ⟨hn, hcalled⟩
    rw [Sheet.isCalled_eq_false_of_at?_takeAtRules hn] at hcalled
    exact Bool.false_ne_true hcalled
  · change (s.takeAtRules name).2 = _
    rw [← Sheet.filter_outline, List.filter_map]
    rfl
  · rintro rfl
    exact s.entries_takeAtRules name
  · exact Sheet.eq_of_entries_eq (h.trans (s.entries_takeAtRules name).symm)

/-- An at-rule with the name goes with the one around it. -/
example :
    let media : AtRule := ⟨"media", "print", [], 1, ""⟩
    let face : AtRule := ⟨"Font-Face", "", [], 2, ""⟩
    let rule : Node := .rule ⟨".a", [], 3, ""⟩
    (Sheet.mk [.atRule media [.atRule face [.atRule face [rule]], rule]]).takeAtRules
        "font-face" =
      (⟨[.atRule media [rule]]⟩, [.atRule face [.atRule face [rule]]]) := by
  rfl

end GlyphTrim.Css
