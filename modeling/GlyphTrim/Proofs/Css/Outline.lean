import GlyphTrim.Proofs.Css.Nodes
import GlyphTrim.Proofs.Survey

/-!
# The outline of a stylesheet

A node of a stylesheet has an address: the numbers of the nodes that lead to it from the outside in.
So addresses in increasing order are the order of the document, and what stands in an at-rule comes
behind it. The outline of a stylesheet for a name lists the nodes that stand in no at-rule with that
name (`Sheet.mem_outline_iff`), each once and in order (`Sheet.pairwise_outline`). Cutting these
at-rules out takes just those in the outline (`Sheet.filter_outline`), and it leaves just the rules
in it (`Sheet.filterMap_outline`).
-/

namespace GlyphTrim.Css

/-! ## Addresses -/

/-- The numbers of the nodes that lead to a node from the outside in. -/
abbrev Address := List Nat

namespace Node

/-- The statements in the block of a statement. -/
def children : Node → List Node
  | .rule _ => []
  | .atRule _ children => children

/-- The node at an address in a node. -/
def at? (n : Node) : Address → Option Node
  | [] => some n
  | i :: l =>
    match n.children[i]? with
    | some m => m.at? l
    | none => none

/-- The rule that a node is. -/
def rule? : Node → Option Rule
  | .rule r => some r
  | .atRule _ _ => none

/-- Whether a node is an at-rule with a name. -/
def isCalled (name : String) : Node → Bool
  | .rule _ => false
  | .atRule head _ => Text.sameIgnoringCase head.name name

theorem rule?_eq_some_iff {n : Node} {r : Rule} : n.rule? = some r ↔ n = .rule r := by
  cases n <;> simp [rule?]

theorem at?_cons (n : Node) (i : Nat) (l : Address) :
    n.at? (i :: l) = n.children[i]?.bind (·.at? l) := by
  rw [at?]
  cases n.children[i]? <;> rfl

theorem at?_append (n : Node) (k l : Address) : n.at? (k ++ l) = (n.at? k).bind (·.at? l) := by
  induction k generalizing n with
  | nil => rfl
  | cons i k ih =>
    rw [List.cons_append, at?_cons, at?_cons, Option.bind_assoc]
    simp only [ih]

end Node

/-- The node at an address in a stylesheet. -/
def Sheet.at? (s : Sheet) : Address → Option Node
  | [] => none
  | i :: l => s.nodes[i]?.bind (·.at? l)

/-- Nothing stands in a rule. -/
theorem Sheet.eq_of_prefix_of_at? {s : Sheet} {k l : Address} {r : Rule} {n : Node} (hkl : k <+: l)
    (hk : s.at? k = some (.rule r)) (hl : s.at? l = some n) : k = l := by
  obtain ⟨rest, rfl⟩ := hkl
  cases k with
  | nil => exact absurd hk (by simp [Sheet.at?])
  | cons i k =>
    obtain ⟨m, hm, hr⟩ := Option.bind_eq_some_iff.1 hk
    rw [List.cons_append, Sheet.at?, hm, Option.bind_some, Node.at?_append, hr,
      Option.bind_some] at hl
    cases rest with
    | nil => rw [List.append_nil]
    | cons j rest => exact absurd hl (by simp [Node.at?, Node.children])

/-- What stands at an address stands in an at-rule with a name. -/
def Beneath (look : Address → Option Node) (name : String) (l : Address) : Prop :=
  ∃ k n, k <+: l ∧ k ≠ l ∧ look k = some n ∧ n.isCalled name = true

section

variable {look : Address → Option Node} {name : String}

/-- Around what stands in at-rules with a name there is an outermost one. -/
theorem Beneath.exists_outermost {l : Address} (h : Beneath look name l) :
    ∃ k n, k <+: l ∧ k ≠ l ∧ look k = some n ∧ n.isCalled name = true ∧ ¬Beneath look name k := by
  obtain ⟨k, n, hk, hne, hn, hcalled⟩ := h
  by_cases hk' : Beneath look name k
  · have hlt : k.length < l.length :=
      Nat.lt_of_le_of_ne hk.length_le fun h => hne (hk.eq_of_length h)
    obtain ⟨j, m, hj, hjk, hm⟩ := exists_outermost hk'
    exact ⟨j, m, hj.trans hk, fun hjl => hjk (hj.eq_of_length_le (hjl ▸ hk.length_le)), hm⟩
  · exact ⟨k, n, hk, hne, hn, hcalled, hk'⟩
  termination_by l.length

theorem not_beneath_nil : ¬Beneath look name [] := by
  rintro ⟨k, n, hk, hne, -⟩
  exact hne (List.prefix_nil.1 hk)

/-- The at-rule is the outermost node itself, or it stands in the part that the address leads to. -/
theorem beneath_cons_iff {i : Nat} {l : Address} : Beneath look name (i :: l) ↔
    (∃ n, look [] = some n ∧ n.isCalled name = true) ∨
      Beneath (fun k => look (i :: k)) name l := by
  constructor
  · rintro ⟨k, n, hk, hne, hn, hcalled⟩
    rcases List.prefix_cons_iff.1 hk with rfl | ⟨k, rfl, hl⟩
    · exact .inl ⟨n, hn, hcalled⟩
    · exact .inr ⟨k, n, hl, fun h => hne (congrArg _ h), hn, hcalled⟩
  · rintro (⟨n, hn, hcalled⟩ | ⟨k, n, hk, hne, hn, hcalled⟩)
    · exact ⟨[], n, List.nil_prefix, List.cons_ne_nil i l ∘ Eq.symm, hn, hcalled⟩
    · refine ⟨i :: k, n, List.cons_prefix_cons.2 ⟨rfl, hk⟩, fun h => hne ?_, hn, hcalled⟩
      exact (List.cons.inj h).2

end

/-- What is in no statement stands in no at-rule. -/
theorem Sheet.not_beneath_singleton (s : Sheet) (name : String) (i : Nat) :
    ¬Beneath s.at? name [i] := by
  rw [beneath_cons_iff, not_or]
  refine ⟨?_, not_beneath_nil⟩
  rintro ⟨n, ⟨⟩, -⟩

/-! ## Outlines -/

mutual

/-- The node and the nodes in it that stand in no at-rule with the name, with their addresses. -/
def Node.outline (name : String) : Node → List (Address × Node)
  | .rule r => surveyOf (some (.rule r)) []
  | .atRule head children =>
    surveyOf (some (.atRule head children))
      (if Text.sameIgnoringCase head.name name then [] else Node.outlines name children)

/-- The outlines of nodes. -/
def Node.outlines (name : String) : List Node → List (List (Address × Node))
  | [] => []
  | n :: ns => n.outline name :: Node.outlines name ns

end

/-- The nodes of a stylesheet that stand in no at-rule with the name, with their addresses. -/
def Sheet.outline (name : String) (s : Sheet) : List (Address × Node) :=
  surveyOf none (Node.outlines name s.nodes)

theorem Node.outlines_eq_map (name : String) (ns : List Node) :
    Node.outlines name ns = ns.map (Node.outline name) := by
  induction ns with
  | nil => rfl
  | cons n ns ih => rw [Node.outlines, ih, List.map_cons]

/-- The nodes in a node, unless it has the name. -/
def Node.partsUnless (name : String) (n : Node) : List Node :=
  if n.isCalled name then [] else n.children

theorem Node.outline_eq (name : String) (n : Node) :
    n.outline name = surveyOf (some n) ((n.partsUnless name).map (Node.outline name)) := by
  cases n with
  | rule r => rfl
  | atRule head children =>
    rw [Node.outline, Node.partsUnless, Node.isCalled, Node.children, Node.outlines_eq_map]
    split <;> rfl

section

variable {name : String} {l : Address} {m : Node}

/-- What the outline of a node or a stylesheet holds, from the outlines of the parts. -/
theorem cons_mem_surveyOf_outline_iff {look : Address → Option Node} {ns : List Node}
    (hlook : ∀ i l, look (i :: l) = ns[i]?.bind (·.at? l))
    (htop : ∀ n, look [] = some n → n.isCalled name = false) {i : Nat}
    (hparts : ∀ n : Node, (l, m) ∈ n.outline name ↔ n.at? l = some m ∧ ¬Beneath n.at? name l)
    (here : Option Node) : (i :: l, m) ∈ surveyOf here (ns.map (Node.outline name)) ↔
      look (i :: l) = some m ∧ ¬Beneath look name (i :: l) := by
  have houter : ¬∃ n, look [] = some n ∧ n.isCalled name = true := by
    rintro ⟨n, hn, hcalled⟩
    exact absurd ((htop n hn).symm.trans hcalled) Bool.false_ne_true
  rw [cons_mem_surveyOf_iff, List.getElem?_map, beneath_cons_iff, or_iff_right houter, hlook]
  cases hnode : ns[i]? with
  | none => simp
  | some n =>
    have hat : (fun k => look (i :: k)) = n.at? := by
      funext k
      rw [hlook, hnode, Option.bind_some]
    rw [hat, Option.bind_some, ← hparts n]
    simp

theorem Node.mem_outline_iff {n : Node} :
    (l, m) ∈ n.outline name ↔ n.at? l = some m ∧ ¬Beneath n.at? name l := by
  induction l generalizing n with
  | nil => simp [Node.outline_eq, nil_mem_surveyOf_iff, Node.at?, not_beneath_nil]
  | cons i l ih =>
    rw [Node.outline_eq, Node.partsUnless]
    cases hcalled : n.isCalled name with
    | true =>
      have hbeneath : Beneath n.at? name (i :: l) := beneath_cons_iff.2 (.inl ⟨n, rfl, hcalled⟩)
      simp [cons_mem_surveyOf_iff, hbeneath]
    | false =>
      refine cons_mem_surveyOf_outline_iff n.at?_cons ?_ (fun _ => ih) (some n)
      rintro _ ⟨⟩
      exact hcalled

/-- **The outline** holds the nodes that stand in no at-rule with the name. -/
theorem Sheet.mem_outline_iff {s : Sheet} :
    (l, m) ∈ s.outline name ↔ s.at? l = some m ∧ ¬Beneath s.at? name l := by
  rw [Sheet.outline, Node.outlines_eq_map]
  cases l with
  | nil => simp [nil_mem_surveyOf_iff, Sheet.at?]
  | cons i l =>
    refine cons_mem_surveyOf_outline_iff (fun _ _ => rfl) ?_ (fun _ => Node.mem_outline_iff) none
    rintro _ ⟨⟩

theorem Node.sizeOf_lt_of_mem_partsUnless {n c : Node} (hc : c ∈ n.partsUnless name) :
    sizeOf c < sizeOf n := by
  rw [Node.partsUnless] at hc
  split at hc
  · exact absurd hc List.not_mem_nil
  · cases n with
    | rule r => exact absurd hc List.not_mem_nil
    | atRule head children =>
      have hlt := List.sizeOf_lt_of_mem (show c ∈ children from hc)
      simp only [Node.atRule.sizeOf_spec]
      omega

theorem Node.pairwise_outline (n : Node) : (n.outline name).Pairwise (·.1 < ·.1) := by
  rw [Node.outline_eq]
  refine pairwise_surveyOf _ fun found hfound => ?_
  obtain ⟨c, hc, rfl⟩ := List.mem_map.1 hfound
  exact Node.pairwise_outline c
  termination_by sizeOf n
  decreasing_by exact Node.sizeOf_lt_of_mem_partsUnless hc

/-- The outline stands in the order of the document. -/
theorem Sheet.pairwise_outline (s : Sheet) : (s.outline name).Pairwise (·.1 < ·.1) := by
  rw [Sheet.outline, Node.outlines_eq_map]
  refine pairwise_surveyOf _ fun found hfound => ?_
  obtain ⟨n, -, rfl⟩ := List.mem_map.1 hfound
  exact n.pairwise_outline

end

/-! ## Surveys of a stylesheet -/

/-- The nodes of a stylesheet with a property, with their addresses: each once, and in the order of
the document. -/
structure Sheet.IsSurvey (s : Sheet) (p : Address → Node → Prop) (found : List (Address × Node)) :
    Prop where
  increasing : found.Pairwise (·.1 < ·.1)
  mem_iff : ∀ l n, (l, n) ∈ found ↔ s.at? l = some n ∧ p l n

theorem Sheet.isSurvey_filter_outline {p : Node → Prop} {q : Node → Bool}
    (h : ∀ n, q n = true ↔ p n) (s : Sheet) (name : String) :
    s.IsSurvey (fun l n => p n ∧ ¬Beneath s.at? name l)
      ((s.outline name).filter fun f => q f.2) := by
  refine ⟨s.pairwise_outline.filter _, fun l n => ?_⟩
  rw [List.mem_filter, Sheet.mem_outline_iff, h, and_assoc, and_comm (a := ¬_)]

/-! ## Cutting at-rules out -/

theorem Node.map_snd_outline (name : String) (n : Node) :
    (n.outline name).map (·.2) =
      n :: (n.partsUnless name).flatMap fun c => (c.outline name).map (·.2) := by
  rw [Node.outline_eq, map_snd_surveyOf, List.flatMap_map]
  rfl

theorem Sheet.map_snd_outline (name : String) (s : Sheet) :
    (s.outline name).map (·.2) = s.nodes.flatMap fun n => (n.outline name).map (·.2) := by
  rw [Sheet.outline, Node.outlines_eq_map, map_snd_surveyOf, List.flatMap_map]
  rfl

mutual

theorem Node.filterMap_outline (name : String) : ∀ n : Node,
    ((n.outline name).map (·.2)).filterMap Node.rule? = Node.rulesOfAll (n.cut name).1
  | .rule r => rfl
  | .atRule head children => by
    rw [Node.map_snd_outline, Node.partsUnless, Node.isCalled, Node.cut]
    split
    · rfl
    · rw [Node.children, List.filterMap_cons, Node.filterMap_outlines name children]
      simp [Node.rule?, Node.rulesOfAll, Node.rules]

theorem Node.filterMap_outlines (name : String) : ∀ ns : List Node,
    (ns.flatMap fun n => (n.outline name).map (·.2)).filterMap Node.rule? =
      Node.rulesOfAll (Node.cutAll name ns).1
  | [] => rfl
  | n :: ns => by
    rw [List.flatMap_cons, List.filterMap_append, Node.filterMap_outline name n,
      Node.filterMap_outlines name ns, Node.cutAll, Node.rulesOfAll_append]

end

mutual

theorem Node.filter_outline (name : String) : ∀ n : Node,
    ((n.outline name).map (·.2)).filter (Node.isCalled name) = (n.cut name).2
  | .rule r => rfl
  | .atRule head children => by
    rw [Node.map_snd_outline, Node.partsUnless, Node.isCalled, Node.cut]
    split
    · rename_i hname
      simp [Node.isCalled, hname]
    · rename_i hname
      rw [Node.children, List.filter_cons_of_neg (by rwa [Node.isCalled]),
        Node.filter_outlines name children]

theorem Node.filter_outlines (name : String) : ∀ ns : List Node,
    (ns.flatMap fun n => (n.outline name).map (·.2)).filter (Node.isCalled name) =
      (Node.cutAll name ns).2
  | [] => rfl
  | n :: ns => by
    rw [List.flatMap_cons, List.filter_append, Node.filter_outline name n,
      Node.filter_outlines name ns, Node.cutAll]

end

/-- **What is left** when the at-rules with a name are cut out are the rules of the outline. -/
theorem Sheet.filterMap_outline (name : String) (s : Sheet) :
    ((s.outline name).map (·.2)).filterMap Node.rule? = (s.takeAtRules name).1.rules := by
  rw [Sheet.map_snd_outline, Node.filterMap_outlines]
  rfl

/-- **What is cut out** are the at-rules of the outline with the name. -/
theorem Sheet.filter_outline (name : String) (s : Sheet) :
    ((s.outline name).map (·.2)).filter (Node.isCalled name) = (s.takeAtRules name).2 := by
  rw [Sheet.map_snd_outline, Node.filter_outlines]
  rfl

end GlyphTrim.Css
