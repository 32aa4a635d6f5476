import GlyphTrim.Css.Sheet

/-!
# The nodes of a stylesheet

`Node.within` lists a node with all that stands in it. The rules of a stylesheet are its nodes that
are rules (`mem_rulesOfAll_iff`), and cutting at-rules out parts them: a rule is left, or it
stands in an at-rule that was cut out (`mem_rulesOfAll_iff_cutAll`).
-/

namespace GlyphTrim.Css

mutual

/-- The node and the nodes in it, at all depths. -/
def Node.within : Node → List Node
  | .rule r => [.rule r]
  | .atRule head children => .atRule head children :: Node.withinAll children

/-- The nodes of a list and the nodes in them. -/
def Node.withinAll : List Node → List Node
  | [] => []
  | n :: ns => n.within ++ Node.withinAll ns

end

mutual

theorem Node.mem_rules_iff {r : Rule} : ∀ n : Node, r ∈ n.rules ↔ .rule r ∈ n.within
  | .rule r' => by simp [Node.rules, Node.within]
  | .atRule head children => by
    simp [Node.rules, Node.within, Node.mem_rulesOfAll_iff children]

/-- The rules are the nodes that are rules. -/
theorem Node.mem_rulesOfAll_iff {r : Rule} :
    ∀ ns : List Node, r ∈ Node.rulesOfAll ns ↔ .rule r ∈ Node.withinAll ns
  | [] => by simp [Node.rulesOfAll, Node.withinAll]
  | n :: ns => by
    simp [Node.rulesOfAll, Node.withinAll, Node.mem_rules_iff n, Node.mem_rulesOfAll_iff ns]

end

theorem Node.rulesOfAll_append (ns ms : List Node) :
    Node.rulesOfAll (ns ++ ms) = Node.rulesOfAll ns ++ Node.rulesOfAll ms := by
  induction ns with
  | nil => rfl
  | cons n ns ih => rw [List.cons_append, Node.rulesOfAll, ih, Node.rulesOfAll, List.append_assoc]

theorem Node.mem_within_self (n : Node) : n ∈ n.within := by
  cases n <;> simp [Node.within]

theorem Node.withinAll_append (ns ms : List Node) :
    Node.withinAll (ns ++ ms) = Node.withinAll ns ++ Node.withinAll ms := by
  induction ns with
  | nil => rfl
  | cons n ns ih => rw [List.cons_append, Node.withinAll, ih, Node.withinAll, List.append_assoc]

mutual

theorem Node.mem_rules_iff_cut (name : String) {r : Rule} :
    ∀ n : Node, r ∈ n.rules ↔
      r ∈ Node.rulesOfAll (n.cut name).1 ∨ ∃ f ∈ (n.cut name).2, r ∈ f.rules
  | .rule r' => by simp [Node.cut, Node.rules, Node.rulesOfAll]
  | .atRule head children => by
    unfold Node.cut
    split
    · simp [Node.rulesOfAll]
    · simp only [Node.rules, Node.rulesOfAll, List.append_nil]
      exact Node.mem_rulesOfAll_iff_cutAll name children

/-- **A rule is left or was cut out** with the at-rule that it stands in. -/
theorem Node.mem_rulesOfAll_iff_cutAll (name : String) {r : Rule} :
    ∀ ns : List Node, r ∈ Node.rulesOfAll ns ↔
      r ∈ Node.rulesOfAll (Node.cutAll name ns).1 ∨ ∃ f ∈ (Node.cutAll name ns).2, r ∈ f.rules
  | [] => by simp [Node.cutAll, Node.rulesOfAll]
  | n :: ns => by
    simp only [Node.cutAll, Node.rulesOfAll, Node.rulesOfAll_append, List.mem_append,
      Node.mem_rules_iff_cut name n, Node.mem_rulesOfAll_iff_cutAll name ns]
    constructor
    · rintro ((h | ⟨f, hf, h⟩) | (h | ⟨f, hf, h⟩))
      · exact .inl (.inl h)
      · exact .inr ⟨f, .inl hf, h⟩
      · exact .inl (.inr h)
      · exact .inr ⟨f, .inr hf, h⟩
    · rintro ((h | h) | ⟨f, hf | hf, h⟩)
      · exact .inl (.inl h)
      · exact .inr (.inl h)
      · exact .inl (.inr ⟨f, hf, h⟩)
      · exact .inr (.inr ⟨f, hf, h⟩)

end

mutual

theorem Node.mem_within_of_mem_cut (name : String) {f : Node} :
    ∀ n : Node, f ∈ (n.cut name).2 → f ∈ n.within
  | .rule r => by simp [Node.cut]
  | .atRule head children => by
    intro hf
    unfold Node.cut at hf
    split at hf
    · obtain rfl := List.mem_singleton.1 hf
      exact Node.mem_within_self _
    · rw [Node.within]
      exact List.mem_cons_of_mem _ (Node.mem_withinAll_of_mem_cutAll name children hf)

/-- What was cut out is a node of the stylesheet. -/
theorem Node.mem_withinAll_of_mem_cutAll (name : String) {f : Node} :
    ∀ ns : List Node, f ∈ (Node.cutAll name ns).2 → f ∈ Node.withinAll ns
  | [] => by simp [Node.cutAll]
  | n :: ns => by
    intro hf
    rw [Node.cutAll] at hf
    rw [Node.withinAll, List.mem_append]
    rcases List.mem_append.1 hf with hf | hf
    · exact .inl (Node.mem_within_of_mem_cut name n hf)
    · exact .inr (Node.mem_withinAll_of_mem_cutAll name ns hf)

end

mutual

theorem Node.exists_atRule_of_mem_cut (name : String) {f : Node} :
    ∀ n : Node, f ∈ (n.cut name).2 →
      ∃ head children, f = .atRule head children ∧ Text.sameIgnoringCase head.name name = true
  | .rule r => by simp [Node.cut]
  | .atRule head children => by
    intro hf
    unfold Node.cut at hf
    split at hf
    · rename_i hname
      exact ⟨head, children, List.mem_singleton.1 hf, hname⟩
    · exact Node.exists_atRule_of_mem_cutAll name children hf

/-- What was cut out are at-rules with the name. -/
theorem Node.exists_atRule_of_mem_cutAll (name : String) {f : Node} :
    ∀ ns : List Node, f ∈ (Node.cutAll name ns).2 →
      ∃ head children, f = .atRule head children ∧ Text.sameIgnoringCase head.name name = true
  | [] => by simp [Node.cutAll]
  | n :: ns => by
    intro hf
    rw [Node.cutAll] at hf
    rcases List.mem_append.1 hf with hf | hf
    · exact Node.exists_atRule_of_mem_cut name n hf
    · exact Node.exists_atRule_of_mem_cutAll name ns hf

end

mutual

theorem Node.rulesOfAll_cut {name : String} : ∀ {n : Node},
    (∀ f ∈ (n.cut name).2, f.rules = []) → Node.rulesOfAll (n.cut name).1 = n.rules
  | .rule r, _ => by simp [Node.cut, Node.rules, Node.rulesOfAll]
  | .atRule head children, h => by
    unfold Node.cut at h ⊢
    split
    · rename_i hname
      rw [if_pos hname] at h
      exact (h _ (List.mem_singleton.2 rfl)).symm
    · rename_i hname
      rw [if_neg hname] at h
      simp only [Node.rules, Node.rulesOfAll, List.append_nil]
      exact Node.rulesOfAll_cutAll h

/-- Cutting at-rules without rules out leaves the rules as they are. -/
theorem Node.rulesOfAll_cutAll {name : String} : ∀ {ns : List Node},
    (∀ f ∈ (Node.cutAll name ns).2, f.rules = []) →
      Node.rulesOfAll (Node.cutAll name ns).1 = Node.rulesOfAll ns
  | [], _ => rfl
  | n :: ns, h => by
    rw [Node.cutAll] at h
    rw [Node.cutAll, Node.rulesOfAll_append, Node.rulesOfAll,
      Node.rulesOfAll_cut fun f hf => h f (List.mem_append_left _ hf),
      Node.rulesOfAll_cutAll fun f hf => h f (List.mem_append_right _ hf)]

end

end GlyphTrim.Css
