import GlyphTrim.Proofs.Path.Normal

/-!
# Names at the end of paths

The name at the end of a path stays when the path is taken from a root (`exists_resolve_eq`). A
normal form with a name at its end has the parent that is left without the name
(`Folded.IsNormal.parent?_toPath`).
-/

namespace GlyphTrim.Path

/-! ## Names of joined paths -/

theorem fileName?_eq_some_iff {p : Path} {n : String} :
    p.fileName? = some n ↔ p.components.getLast? = some (.name n) := by
  unfold fileName?
  split
  · rename_i m hm
    simp [hm]
  · rename_i hnot
    simp only [reduceCtorEq, false_iff]
    exact fun h => hnot n h

/-- The name at the end is the last piece that counts. -/
theorem fileName?_eq_some_iff_filterMap {p : Path} {n : String} :
    p.fileName? = some n ↔
      ((pieces p.text.toList).filterMap component?).getLast? = some (.name n) := by
  rw [fileName?_eq_some_iff, components]
  by_cases hnil : (pieces p.text.toList).filterMap component? = []
  · rw [hnil, List.append_nil]
    simp only [List.getLast?_nil, reduceCtorEq, iff_false]
    split
    · simp
    · split <;> simp
  · rw [List.getLast?_append_of_ne_nil _ hnil]

theorem pieces_append_slash (cs ds : List Char) :
    pieces (cs ++ '/' :: ds) = pieces cs ++ pieces ds := by
  induction cs with
  | nil => exact pieces_slash_cons ds
  | cons c cs ih =>
    obtain ⟨piece, more, h⟩ :=
      List.exists_cons_of_ne_nil (pieces_eq_splitOn cs ▸ List.splitOn_ne_nil '/' cs)
    rw [List.cons_append, pieces, pieces, ih, h, List.cons_append]
    dsimp only
    split <;> rfl

/-- The pieces of a path behind another one. -/
theorem exists_pieces_join (p q : Path) :
    ∃ ps, pieces (p.join q).text.toList = ps ++ pieces q.text.toList := by
  unfold join
  split
  · exact ⟨[], rfl⟩
  split
  · rename_i hslash
    have hlast : p.text.toList.getLast? = some '/' := by simpa using hslash
    have htext := List.dropLast_append_getLast? '/' hlast
    refine ⟨pieces p.text.toList.dropLast, ?_⟩
    rw [String.toList_append, ← htext, List.append_assoc]
    simpa using pieces_append_slash _ _
  · refine ⟨pieces p.text.toList, ?_⟩
    rw [String.toList_append, String.toList_append, List.append_assoc]
    exact pieces_append_slash _ _

/-- A path behind another one keeps its name. -/
theorem fileName?_join {q : Path} {n : String} (h : q.fileName? = some n) (p : Path) :
    (p.join q).fileName? = some n := by
  rw [fileName?_eq_some_iff_filterMap] at h ⊢
  obtain ⟨ps, hps⟩ := exists_pieces_join p q
  have hne : (pieces q.text.toList).filterMap component? ≠ [] := by
    intro hnil
    simp [hnil] at h
  rw [hps, List.filterMap_append, List.getLast?_append_of_ne_nil _ hne, h]

theorem isFileName_of_fileName? {p : Path} {n : String} (h : p.fileName? = some n) :
    IsFileName n :=
  isProper_of_mem_components (List.mem_of_getLast? (fileName?_eq_some_iff.1 h))

/-- A path with a name at its end is folded to names of which that one is the last. -/
theorem exists_fold_eq {p : Path} {n : String} (h : p.fileName? = some n) :
    ∃ absolute names, p.fold = ⟨absolute, n :: names⟩ := by
  obtain ⟨cs, hcs⟩ := List.getLast?_eq_some_iff.1 (fileName?_eq_some_iff.1 h)
  rw [fold, hcs, List.foldl_append]
  exact ⟨_, _, rfl⟩

/-- **A path with a name at its end**, taken from a root, is a normal form that ends with the
name. -/
theorem exists_resolve_eq {q : Path} {n : String} (h : q.fileName? = some n) (root : Path) :
    ∃ absolute names, (⟨absolute, n :: names⟩ : Folded).IsNormal ∧
      root.resolve q = Folded.toPath ⟨absolute, n :: names⟩ := by
  obtain ⟨absolute, names, hfold⟩ := exists_fold_eq (fileName?_join h root)
  exact ⟨absolute, names, hfold ▸ isNormal_fold _, by rw [resolve, normalize, hfold]⟩

/-! ## Stems -/

/-- The stem of a name is made of its characters. -/
theorem mem_of_mem_splitExtension {name : String} {c : Char}
    (h : c ∈ (splitExtension name).1.toList) : c ∈ name.toList := by
  unfold splitExtension at h
  dsimp only at h
  split at h
  · rename_i stem hstem
    split at h
    · exact h
    · have hsuffix := List.dropWhile_suffix (l := name.toList.reverse) (· != '.')
      rw [hstem] at hsuffix
      have hmem : c ∈ stem := by simpa using h
      exact List.mem_reverse.1 (hsuffix.mem (List.mem_cons_of_mem _ hmem))
  · exact h

/-- A stem with a suffix to it is a name, as long as the suffix has other characters than dots. -/
theorem isFileName_stem_append {name suffix : String} (hname : IsFileName name)
    (hslash : '/' ∉ suffix.toList) {c : Char} (hc : c ∈ suffix.toList) (hdot : c ≠ '.') :
    IsFileName ((splitExtension name).1 ++ suffix) := by
  have hmem : c ∈ ((splitExtension name).1 ++ suffix).toList := by
    rw [String.toList_append]
    exact List.mem_append_right _ hc
  constructor
  · rintro hempty
    exact absurd hmem (by simp [hempty])
  · rw [String.toList_append, List.mem_append, not_or]
    exact ⟨fun h => hname.not_slash (mem_of_mem_splitExtension h), hslash⟩
  · rintro hsingle
    exact absurd hmem (by simp [hsingle, hdot])
  · rintro hdots
    exact absurd hmem (by simp [hdots, hdot])

/-! ## Normal forms with a name at the end -/

namespace Folded

variable {absolute : Bool} {n : String} {names : List String}

theorem IsNormal.tail (h : (⟨absolute, n :: names⟩ : Folded).IsNormal) :
    (⟨absolute, names⟩ : Folded).IsNormal := by
  constructor <;> intro m hm
  · exact h.ne_empty m (List.mem_cons_of_mem n hm)
  · exact h.not_slash m (List.mem_cons_of_mem n hm)
  · exact h.ne_dot m (List.mem_cons_of_mem n hm)
  · cases names with
    | nil => exact absurd hm (by simp)
    | cons k names => exact h.ne_dots m (List.mem_cons_of_mem n hm)

theorem IsNormal.fileName?_toPath (h : (⟨absolute, n :: names⟩ : Folded).IsNormal)
    (hn : n ≠ "..") : (toPath ⟨absolute, n :: names⟩).fileName? = some n := by
  rw [fileName?_eq_some_iff, h.components_toPath, List.reverse_cons, List.map_append,
    ← List.append_assoc]
  simp [Component.ofName, hn]

/-- The pieces of a normal form with a name. -/
theorem IsNormal.pieces_toPath (h : (⟨absolute, n :: names⟩ : Folded).IsNormal) :
    pieces (toPath ⟨absolute, n :: names⟩).text.toList =
      (if absolute then [[]] else []) ++ (n :: names).reverse.map String.toList := by
  have hslash : ∀ p ∈ (n :: names).reverse.map String.toList, '/' ∉ p := by
    intro p hp
    obtain ⟨m, hm, rfl⟩ := List.mem_map.1 hp
    exact h.not_slash m (List.mem_reverse.1 hm)
  have hpieces := pieces_intercalate (by simp) hslash
  rw [toList_toPath]
  cases absolute with
  | true => simpa [pieces_slash_cons] using hpieces
  | false => simpa using hpieces

theorem not_isSilent (hne : n ≠ "") (hdot : n ≠ ".") : isSilent n.toList = false := by
  have hsingle : n.toList ≠ ['.'] := fun h => hdot (String.toList_inj.1 h)
  simp [isSilent, hne, hsingle]

/-- Nothing is dropped at the end of pieces that all count. -/
theorem dropSilent_eq_self {ps : List (List Char)} (h : ∀ p ∈ ps.tail, isSilent p = false) :
    dropSilent ps = ps := by
  cases ps with
  | nil => rfl
  | cons first rest =>
    have hdrop : rest.reverse.dropWhile isSilent = rest.reverse := by
      cases hrest : rest.reverse with
      | nil => rfl
      | cons p ps =>
        have hp : p ∈ rest := List.mem_reverse.1 (hrest ▸ List.mem_cons_self)
        exact List.dropWhile_cons_of_neg (by simp [h p hp])
    rw [dropSilent, hdrop, List.reverse_reverse]

/-- The parent of a path whose pieces behind the first all count. -/
theorem parent?_of_pieces {p : Path} {front : List (List Char)} {piece : List Char}
    (hpieces : pieces p.text.toList = front ++ [piece]) (hfront : front ≠ [])
    (hsilent : ∀ q ∈ front.tail ++ [piece], isSilent q = false) :
    p.parent? = some (ofPieces front) := by
  have hall : dropSilent (front ++ [piece]) = front ++ [piece] :=
    dropSilent_eq_self (by rwa [List.tail_append_of_ne_nil hfront])
  have hdrop : dropSilent front = front :=
    dropSilent_eq_self fun q hq => hsilent q (List.mem_append_left _ hq)
  obtain ⟨first, rest, rfl⟩ := List.exists_cons_of_ne_nil hfront
  obtain ⟨next, more, hnext⟩ := List.exists_cons_of_ne_nil (List.concat_ne_nil piece rest)
  have hlast : (first :: next :: more).dropLast = first :: rest := by
    rw [← hnext, ← List.cons_append, List.dropLast_concat]
  rw [parent?, hpieces, hall, List.cons_append, hnext]
  simp only [hlast, hdrop]

theorem ofPieces_of_ne {ps : List (List Char)} (h : ps ≠ [[]]) :
    ofPieces ps = ⟨"/".intercalate (ps.map String.ofList)⟩ := by
  unfold ofPieces
  split
  · exact absurd rfl h
  · rfl

theorem map_ofList_map_toList (ns : List String) :
    (ns.map String.toList).map String.ofList = ns := by
  simp

/-- **The parent of a normal form** is without its last name. -/
theorem IsNormal.parent?_toPath (h : (⟨absolute, n :: names⟩ : Folded).IsNormal) :
    (toPath ⟨absolute, n :: names⟩).parent? = some (toPath ⟨absolute, names⟩) := by
  have hsilent : ∀ q ∈ (n :: names).reverse.map String.toList, isSilent q = false := by
    intro q hq
    obtain ⟨m, hm, rfl⟩ := List.mem_map.1 hq
    have hm := List.mem_reverse.1 hm
    exact not_isSilent (h.ne_empty m hm) (h.ne_dot m hm)
  have hpieces := h.pieces_toPath
  rw [List.reverse_cons, List.map_append, List.map_singleton] at hpieces hsilent
  cases absolute with
  | true =>
    rw [if_pos rfl, ← List.append_assoc] at hpieces
    rw [parent?_of_pieces hpieces (by simp) (by simpa using hsilent)]
    cases names with
    | nil => rfl
    | cons k names =>
      rw [ofPieces_of_ne (by simp), List.map_append, map_ofList_map_toList, toPath,
        List.map_singleton, String.intercalate_append_of_ne_nil (by simp) (by simp)]
      simp
  | false =>
    cases names with
    | nil =>
      obtain ⟨c, cs, hn⟩ := List.exists_cons_of_ne_nil
        (by simpa using h.ne_empty n List.mem_cons_self : n.toList ≠ [])
      rw [parent?, hpieces, hn]
      rfl
    | cons k names =>
      have hne : (k :: names).reverse.map String.toList ≠ [[]] := by
        intro hsingle
        have hk : k.toList ∈ (k :: names).reverse.map String.toList := by simp
        rw [hsingle, List.mem_singleton] at hk
        exact h.ne_empty k (by simp) (by simpa using hk)
      rw [if_neg (by simp), List.nil_append] at hpieces
      rw [parent?_of_pieces hpieces (by simp) ?_, ofPieces_of_ne hne, map_ofList_map_toList,
        toPath]
      · simp
      · intro q hq
        rcases List.mem_append.1 hq with hq | hq
        · exact hsilent q (List.mem_append_left _ (List.mem_of_mem_tail hq))
        · exact hsilent q (List.mem_append_right _ hq)

end Folded

end GlyphTrim.Path
