import GlyphTrim.Proofs.Css.Cutting
import GlyphTrim.Proofs.Glyph.Pruned

/-!
# The sections of a pruned stylesheet

A pruned stylesheet is written section by section, with the source text of one node in each
(`toList_prunedCss`). It is read again as these nodes exactly if the source texts of all of them but
the last are closed (`exists_parse_prunedCss_alike_iff`). A node that the end of the stylesheet
closes is written as it stands, so it swallows the sections behind it.
-/

namespace GlyphTrim.Glyph

open Css Text

/-! ## The nodes that are written -/

/-- The nodes of the sections in front: the font faces, then the rules of the base class. -/
def headerNodes (sheet : Sheet) (base : String) : List Node :=
  let (rest, faces) := sheet.takeAtRules "font-face"
  faces ++ (rest.rules.filter fun r => r.selector == selectorOfClass base).map .rule

/-- The nodes of the sections behind: the rules that mention a class that keeps its glyph. -/
def bodyNodes (sheet : Sheet) (retained : Retained) : List Node :=
  let (rest, _) := sheet.takeAtRules "font-face"
  (rest.rules.filter (mentions retained.keys)).map .rule

/-- The nodes on lines of their own, with what stands in front of each. The white space in front of
the first one is not written. -/
def headerPieces : List Node → List (List Char × Node)
  | [] => []
  | n :: ns => ([], n.dropBlanks) :: ns.map fun m => (['\n'], m)

/-- The nodes of all sections, with what stands in front of each. -/
def pieces (sheet : Sheet) (retained : Retained) (base : String) : List (List Char × Node) :=
  headerPieces (headerNodes sheet base) ++
    (bodyNodes sheet retained).map fun n => (['\n', '\n'], n)

/-- The nodes of all sections. -/
def emittedNodes (sheet : Sheet) (retained : Retained) (base : String) : List Node :=
  (pieces sheet retained base).map (·.2)

theorem map_raw_headerNodes (sheet : Sheet) (base : String) :
    (headerNodes sheet base).map Node.raw = headerSections sheet base := by
  rw [headerNodes, headerSections, List.map_append, List.map_map]
  rfl

theorem map_raw_bodyNodes (sheet : Sheet) (retained : Retained) :
    (bodyNodes sheet retained).map Node.raw = bodySections sheet retained := by
  rw [bodyNodes, bodySections, List.map_map]
  rfl

theorem mem_withinAll_of_mem_rules {sheet : Sheet} {r : Rule}
    (hr : r ∈ (sheet.takeAtRules "font-face").1.rules) : .rule r ∈ Node.withinAll sheet.nodes :=
  (Node.mem_rulesOfAll_iff sheet.nodes).1
    ((Node.mem_rulesOfAll_iff_cutAll "font-face" sheet.nodes).2 (.inl hr))

theorem mem_withinAll_of_mem_headerNodes {sheet : Sheet} {base : String} {n : Node}
    (hn : n ∈ headerNodes sheet base) : n ∈ Node.withinAll sheet.nodes ∧ n.BeginsWithMark := by
  rcases List.mem_append.1 hn with hn | hn
  · obtain ⟨head, children, rfl, -⟩ := Node.exists_atRule_of_mem_cutAll _ sheet.nodes hn
    exact ⟨Node.mem_withinAll_of_mem_cutAll "font-face" sheet.nodes hn, .atRule head children⟩
  · obtain ⟨r, hr, rfl⟩ := List.mem_map.1 hn
    obtain ⟨hr, hselector⟩ := List.mem_filter.1 hr
    have hmark : r.selector.toList = '.' :: base.toList := by
      rw [eq_of_beq hselector, selectorOfClass, String.toList_append]
      rfl
    exact ⟨mem_withinAll_of_mem_rules hr, .rule hmark⟩

theorem mem_withinAll_of_mem_bodyNodes {sheet : Sheet} {retained : Retained} {n : Node}
    (hn : n ∈ bodyNodes sheet retained) : n ∈ Node.withinAll sheet.nodes := by
  obtain ⟨r, hr, rfl⟩ := List.mem_map.1 hn
  exact mem_withinAll_of_mem_rules (List.mem_of_mem_filter hr)

/-- Only line breaks stand between the nodes, and none of the nodes is changed but the first one. -/
theorem mem_pieces_cases {sheet : Sheet} {retained : Retained} {base : String}
    {p : List Char × Node} (hp : p ∈ pieces sheet retained base) :
    Opens p.1 [] ∧ ((∃ n ∈ headerNodes sheet base, p.2 = n ∨ p.2 = n.dropBlanks) ∨
      p.2 ∈ bodyNodes sheet retained) := by
  rcases List.mem_append.1 hp with hp | hp
  · cases hnodes : headerNodes sheet base with
    | nil =>
      rw [hnodes] at hp
      exact absurd hp (by simp [headerPieces])
    | cons n ns =>
      rw [hnodes] at hp
      rcases List.mem_cons.1 hp with rfl | hp
      · exact ⟨opens_nil, .inl ⟨n, List.mem_cons_self, .inr rfl⟩⟩
      · obtain ⟨m, hm, rfl⟩ := List.mem_map.1 hp
        exact ⟨opens_newline, .inl ⟨m, List.mem_cons_of_mem n hm, .inl rfl⟩⟩
  · obtain ⟨n, hn, rfl⟩ := List.mem_map.1 hp
    exact ⟨opens_newline.append opens_newline, .inr hn⟩

theorem dropMark_prunedCss (sheet : Sheet) (retained : Retained) (base : String) :
    dropMark (prunedCss sheet retained base).toList = (prunedCss sheet retained base).toList := by
  rw [prunedCss, String.intercalate_cons_cons, String.toList_append]
  rfl

section

variable {css : String} {sheet : Sheet} (hparse : Sheet.parse css = .ok sheet)

include hparse

theorem holds_of_mem_pieces {retained : Retained} {base : String} {p : List Char × Node}
    (hp : p ∈ pieces sheet retained base) : Holds p.2.raw.toList [p.2] := by
  rcases (mem_pieces_cases hp).2 with ⟨n, hn, heq | heq⟩ | hn
  · rw [heq]
    exact holds_raw hparse (mem_withinAll_of_mem_headerNodes hn).1
  · obtain ⟨hmem, hmark⟩ := mem_withinAll_of_mem_headerNodes hn
    rw [heq]
    exact holds_raw_dropBlanks hparse hmem hmark
  · exact holds_raw hparse (mem_withinAll_of_mem_bodyNodes hn)

/-- **A pruned stylesheet** is its first line, and then the source texts of the nodes. -/
theorem toList_prunedCss (retained : Retained) (base : String) :
    (prunedCss sheet retained base).toList = banner.toList ++ ['\n', '\n'] ++
      (pieces sheet retained base).flatMap fun p => p.1 ++ p.2.raw.toList := by
  have hink : ∀ s ∈ headerSections sheet base, EndsInk s.toList ∧ s.toList ≠ [] := by
    intro s hs
    rw [← map_raw_headerNodes] at hs
    obtain ⟨n, hn, rfl⟩ := List.mem_map.1 hs
    obtain ⟨hmem, -⟩ := mem_withinAll_of_mem_headerNodes hn
    exact ⟨(parse_standIn hparse).endsInk n hmem, (holds_raw hparse hmem).ne_nil⟩
  have hheader : (trim (String.join ((headerSections sheet base).map (· ++ "\n")))).toList =
      (headerPieces (headerNodes sheet base)).flatMap fun p => p.1 ++ p.2.raw.toList := by
    rw [← map_raw_headerNodes] at hink ⊢
    generalize headerNodes sheet base = ns at hink
    cases ns with
    | nil => rfl
    | cons n ns =>
      rw [List.map_cons] at hink ⊢
      rw [toList_trim_join hink, headerPieces, List.flatMap_cons, Node.toList_raw_dropBlanks,
        List.flatMap_map, List.flatMap_map]
      rfl
  rw [prunedCss, toList_intercalate_cons, List.flatMap_cons, hheader, pieces, List.flatMap_append,
    List.flatMap_map, ← map_raw_bodyNodes, List.flatMap_map]
  simp

/-- The nodes that are written stay apart exactly if the source texts of all of them but the last
are closed. -/
theorem holds_prunedCss_iff (retained : Retained) (base : String) :
    Holds (prunedCss sheet retained base).toList (emittedNodes sheet retained base) ↔
      ∀ n ∈ (emittedNodes sheet retained base).dropLast, Closed n.raw.toList := by
  have hlead : Opens (banner.toList ++ ['\n', '\n']) [] := by
    have hstar : '*' ∉ " Auto-generated minified iconfont ".toList := by decide
    exact (opens_comment hstar).append (opens_newline.append opens_newline)
  rw [toList_prunedCss hparse]
  exact holds_append_flatMap_iff hlead (fun _ hp => (mem_pieces_cases hp).1)
    fun _ hp => holds_of_mem_pieces hparse hp

/-- The nodes with a block of a stylesheet that closes its brackets are closed, also without the
white space in front of them. -/
theorem closed_raw_of_hasBlock (hclosed : Balanced (tokens (dropMark css.toList))) {n : Node}
    (hn : n ∈ Node.withinAll sheet.nodes) (hblock : n.hasBlock = true) :
    Closed n.raw.toList ∧ (n.BeginsWithMark → Closed n.dropBlanks.raw.toList) := by
  obtain ⟨ts, hlexed, h⟩ := (hasBlock_iff_exists_isBlock hparse hclosed hn).1 hblock
  have hraw := (h.isStatement.holds hlexed).2
  refine ⟨hraw, fun hmark => ?_⟩
  obtain ⟨a, x, w, heq, ha, hx⟩ := hmark.exists_raw_eq h.isStatement.raw_eq h.isStatement.called
  exact Closed.dropBlanks heq ha hx hraw

theorem closed_of_mem_emittedNodes (hclosed : Balanced (tokens (dropMark css.toList)))
    (hfaces : ∀ f ∈ (sheet.takeAtRules "font-face").2, f.hasBlock = true) {retained : Retained}
    {base : String} {n : Node} (hn : n ∈ emittedNodes sheet retained base) :
    Closed n.raw.toList := by
  obtain ⟨p, hp, rfl⟩ := List.mem_map.1 hn
  rcases (mem_pieces_cases hp).2 with ⟨n, hn, heq⟩ | hn
  · obtain ⟨hmem, hmark⟩ := mem_withinAll_of_mem_headerNodes hn
    have hblock : n.hasBlock = true := by
      rcases List.mem_append.1 hn with hface | hrule
      · exact hfaces n hface
      · obtain ⟨r, -, rfl⟩ := List.mem_map.1 hrule
        rfl
    obtain ⟨hraw, hdrop⟩ := closed_raw_of_hasBlock hparse hclosed hmem hblock
    rcases heq with heq | heq <;> rw [heq]
    · exact hraw
    · exact hdrop hmark
  · have hblock : p.2.hasBlock = true := by
      obtain ⟨r, -, heq⟩ := List.mem_map.1 hn
      rw [← heq]
      rfl
    exact (closed_raw_of_hasBlock hparse hclosed (mem_withinAll_of_mem_bodyNodes hn) hblock).1

/-- **A stylesheet that closes its brackets** is pruned to one whose nodes are the nodes that are
written, if its font faces have blocks. -/
theorem exists_parse_prunedCss_alike (hclosed : Balanced (tokens (dropMark css.toList)))
    (hfaces : ∀ f ∈ (sheet.takeAtRules "font-face").2, f.hasBlock = true) (retained : Retained)
    (base : String) : ∃ out, Sheet.parse (prunedCss sheet retained base) = .ok out ∧
      Node.Alike out.nodes (emittedNodes sheet retained base) := by
  rw [exists_parse_alike_iff (dropMark_prunedCss sheet retained base),
    holds_prunedCss_iff hparse retained base]
  intro n hn
  exact closed_of_mem_emittedNodes hparse hclosed hfaces ((List.dropLast_sublist _).subset hn)

/-- **The sections stay apart**: a pruned stylesheet is read again as the nodes that are written
exactly if the source texts of all of them but the last are closed. -/
theorem exists_parse_prunedCss_alike_iff (retained : Retained) (base : String) :
    (∃ out, Sheet.parse (prunedCss sheet retained base) = .ok out ∧
        Node.Alike out.nodes (emittedNodes sheet retained base)) ↔
      ∀ n ∈ (emittedNodes sheet retained base).dropLast, Closed n.raw.toList := by
  rw [exists_parse_alike_iff (dropMark_prunedCss sheet retained base)]
  exact holds_prunedCss_iff hparse retained base

end

/-- The class `i-a` with its glyph. -/
def iconRetained : Retained := NameMap.empty.insert "i-a" "\\e602"

theorem exists_parse_prunedCss_alike_iff_iconCss :
    ∃ sheet, Sheet.parse iconCss = .ok sheet ∧
      ∃ out, Sheet.parse (prunedCss sheet iconRetained "i") = .ok out ∧
        Node.Alike out.nodes (emittedNodes sheet iconRetained "i") := by
  obtain ⟨sheet, hparse, -⟩ := exists_parse_iconCss
  refine ⟨sheet, hparse, (exists_parse_prunedCss_alike_iff hparse iconRetained "i").2 ?_⟩
  have hclosed : (Sheet.parse iconCss).toOption.map (fun sheet =>
      (emittedNodes sheet iconRetained "i").dropLast.all fun n => decide (Closed n.raw.toList)) =
      some true := by
    decide +kernel
  intro n hn
  rw [hparse] at hclosed
  have hnode := List.all_eq_true.1 (Option.some.inj hclosed) n hn
  simpa using hnode

/-- A stylesheet with a font face that the end of the input closes. -/
def openFaceCss : String :=
  ".icon-a:before \x7b content: \"\\e600\"; \x7d @font-face \x7b font-family: x"

/-- The font face swallows the rule that is written behind it. -/
theorem not_forall_exists_parse_prunedCss_alike :
    ¬∀ css sheet, Sheet.parse css = .ok sheet → ∀ (retained : Retained) (base : String),
      ∃ out, Sheet.parse (prunedCss sheet retained base) = .ok out ∧
        Node.Alike out.nodes (emittedNodes sheet retained base) := by
  intro h
  have hlengths : (Sheet.parse openFaceCss).toOption.map (fun sheet =>
      let retained := reconcile (NameSet.ofList ["icon-a"])
        (buildIndex sheet (NameSet.ofList ["icon-a"]))
      ((emittedNodes sheet retained "icon").length,
        (Sheet.parse (prunedCss sheet retained "icon")).toOption.map (·.nodes.length))) =
      some (2, some 1) := by
    decide +kernel
  cases hparse : Sheet.parse openFaceCss with
  | error e => simp [hparse, Except.toOption] at hlengths
  | ok sheet =>
    obtain ⟨out, hout, halike⟩ := h _ _ hparse (reconcile (NameSet.ofList ["icon-a"])
      (buildIndex sheet (NameSet.ofList ["icon-a"]))) "icon"
    rw [hparse] at hlengths
    obtain ⟨hwritten, hread⟩ := Prod.mk.inj (Option.some.inj hlengths)
    rw [hout] at hread
    have hone : out.nodes.length = 1 := Option.some.inj hread
    have hlength := congrArg List.length (Node.alike_iff.1 halike)
    rw [List.length_map, List.length_map, hwritten] at hlength
    omega

end GlyphTrim.Glyph
