import GlyphTrim.Proofs.Path.Normal
import Mathlib.Data.List.TakeWhile

/-!
# Routes

A path goes up some folders and from there down along names (`Path.route`). Its normal form goes
down along the same names, but two dots in it also take away two dots before them, so what is left
of the folders that it goes up is one if their number is odd and none otherwise (`route_normalize`).
The text of the normal form is a part of the text of the path (`toList_normalize_sublist`).
-/

namespace GlyphTrim.Path

/-- Where a path leads from where it starts: up some folders, and then down along names. -/
structure Route where
  absolute : Bool := false
  /-- How many folders it goes up. -/
  ups : Nat := 0
  /-- The names on the way down, from the last to the first. -/
  names : List String := []
  deriving Repr, DecidableEq

namespace Route

/-- The route with a component more. Two dots take the last name away, or lead one folder up. -/
def push (r : Route) : Component → Route
  | .root => { absolute := true }
  | .current => r
  | .parent =>
    match r.names with
    | [] => { r with ups := r.ups + 1 }
    | _ :: names => { r with names }
  | .name n => { r with names := n :: r.names }

/-- Two dots that are left of going up some folders if two dots take away two dots. -/
def dots (ups : Nat) : List String := if ups % 2 = 1 then [".."] else []

/-- The folded path that is left of a route. -/
def folded (r : Route) : Folded := ⟨r.absolute, r.names ++ dots r.ups⟩

theorem dots_succ (ups : Nat) : dots (ups + 1) = if dots ups = [] then [".."] else [] := by
  unfold dots
  by_cases h : ups % 2 = 1
  · rw [if_pos h, if_neg (by omega), if_neg (by simp)]
  · rw [if_neg h, if_pos (by omega), if_pos rfl]

theorem folded_push (r : Route) (c : Component) : (r.push c).folded = r.folded.push c := by
  obtain ⟨absolute, ups, names⟩ := r
  cases c with
  | root => rfl
  | current => rfl
  | name n => rfl
  | parent =>
    cases names with
    | cons n names => rfl
    | nil =>
      show (⟨absolute, dots (ups + 1)⟩ : Folded) = Folded.push ⟨absolute, dots ups⟩ .parent
      rw [dots_succ]
      unfold dots
      split <;> rfl

theorem folded_foldl (r : Route) (cs : List Component) :
    (cs.foldl push r).folded = cs.foldl Folded.push r.folded := by
  induction cs generalizing r with
  | nil => rfl
  | cons c cs ih => rw [List.foldl_cons, List.foldl_cons, ih, folded_push]

theorem isFileName_of_mem_push {r : Route} {c : Component} (hr : ∀ n ∈ r.names, IsFileName n)
    (hc : c.IsProper) : ∀ n ∈ (r.push c).names, IsFileName n := by
  obtain ⟨absolute, ups, names⟩ := r
  cases c with
  | root => simp [push]
  | current => exact hr
  | name m => exact List.forall_mem_cons.2 ⟨hc, hr⟩
  | parent =>
    cases names with
    | nil => exact hr
    | cons m names => exact (List.forall_mem_cons.1 hr).2

/-- Names behind a route are on its way down. -/
theorem foldl_push_map_name (r : Route) (ns : List String) :
    (ns.map Component.name).foldl push r = { r with names := ns.reverse ++ r.names } := by
  induction ns generalizing r with
  | nil => rfl
  | cons n ns ih =>
    rw [List.map_cons, List.foldl_cons, ih]
    simp [push]

end Route

/-- The route of a path. -/
def route (p : Path) : Route := p.components.foldl Route.push {}

theorem fold_eq_folded_route (p : Path) : p.fold = p.route.folded :=
  (Route.folded_foldl {} p.components).symm

theorem isFileName_of_mem_route {p : Path} {n : String} (h : n ∈ p.route.names) :
    IsFileName n := by
  have hfold : ∀ (cs : List Component) (r : Route), (∀ c ∈ cs, c.IsProper) →
      (∀ n ∈ r.names, IsFileName n) → ∀ n ∈ (cs.foldl Route.push r).names, IsFileName n := by
    intro cs
    induction cs with
    | nil => exact fun r _ hr => hr
    | cons c cs ih =>
      intro r hcs hr
      obtain ⟨hc, hcs⟩ := List.forall_mem_cons.1 hcs
      exact ih _ hcs (Route.isFileName_of_mem_push hr hc)
  exact hfold p.components {} (fun c hc => isProper_of_mem_components hc) (by simp) n h

/-- A route is absolute if the path begins with a slash. -/
theorem absolute_route (p : Path) : p.route.absolute = p.isAbsolute := by
  have hfold : ∀ (ps : List (List Char)) (r : Route),
      ((ps.filterMap component?).foldl Route.push r).absolute = r.absolute := by
    intro ps
    induction ps with
    | nil => exact fun r => rfl
    | cons piece ps ih =>
      intro r
      rw [List.filterMap_cons]
      split
      · exact ih r
      · rename_i c hc
        have hpush : (r.push c).absolute = r.absolute := by
          obtain ⟨absolute, ups, names⟩ := r
          unfold component? at hc
          split_ifs at hc <;> obtain rfl := Option.some.inj hc
          · cases names <;> rfl
          · rfl
        rw [List.foldl_cons, ih, hpush]
  rw [route, components, List.foldl_append, hfold]
  split
  · rename_i habs
    rw [habs]
    rfl
  · rename_i habs
    have hrel : p.isAbsolute = false := by simpa using habs
    split <;> rw [hrel] <;> rfl

/-- **The route of a normal form** has the same names, and of the folders that the path goes up one
is left if their number is odd. -/
theorem route_normalize (p : Path) :
    p.normalize.route = ⟨p.route.absolute, p.route.ups % 2, p.route.names⟩ := by
  have hnames : p.route.names.reverse.map Component.ofName =
      p.route.names.reverse.map Component.name := by
    refine List.map_congr_left fun n hn => ?_
    have hn : IsFileName n := isFileName_of_mem_route (List.mem_reverse.1 hn)
    rw [Component.ofName, if_neg hn.ne_dots]
  have hcomponents : p.normalize.components = (if p.route.absolute then [.root] else []) ++
      ((Route.dots p.route.ups).map Component.ofName ++
        p.route.names.reverse.map Component.name) := by
    have hreverse : (Route.dots p.route.ups).reverse = Route.dots p.route.ups := by
      unfold Route.dots
      split <;> rfl
    have hnormal := (isNormal_fold p).components_toPath
    rw [fold_eq_folded_route] at hnormal
    rw [normalize, fold_eq_folded_route, hnormal, Route.folded, List.reverse_append, hreverse,
      List.map_append, hnames]
  have hfront : ((if p.route.absolute then [Component.root] else []) ++
      (Route.dots p.route.ups).map Component.ofName).foldl Route.push {} =
        ⟨p.route.absolute, p.route.ups % 2, []⟩ := by
    unfold Route.dots
    rcases Nat.mod_two_eq_zero_or_one p.route.ups with h | h <;> rw [h] <;>
      cases p.route.absolute <;> rfl
  rw [route, hcomponents, ← List.append_assoc, List.foldl_append, hfront,
    Route.foldl_push_map_name]
  simp

/-! ## The text of a normal form -/

theorem intercalate_sublist {ps qs : List (List Char)} (h : ps.Sublist qs) :
    (['/'].intercalate ps).Sublist (['/'].intercalate qs) := by
  induction h with
  | slnil => exact List.Sublist.refl _
  | @cons ps qs q h ih =>
    cases qs with
    | nil =>
      obtain rfl := List.sublist_nil.1 h
      exact List.nil_sublist _
    | cons q' qs =>
      rw [List.intercalate_cons_cons]
      exact ih.trans (List.sublist_append_right _ _)
  | @cons_cons ps qs q h ih =>
    cases ps with
    | nil =>
      cases qs with
      | nil => exact List.Sublist.refl _
      | cons q' qs =>
        rw [List.intercalate_cons_cons, List.append_assoc]
        simp
    | cons p' ps =>
      obtain ⟨q', qs, rfl⟩ := List.exists_cons_of_ne_nil (List.ne_nil_of_length_pos
        (lt_of_lt_of_le (Nat.succ_pos _) h.length_le))
      rw [List.intercalate_cons_cons, List.intercalate_cons_cons]
      exact ih.append_left _

/-- The names of a folded path are some of the pieces that were put together. -/
theorem names_foldl_sublist (ps : List (List Char)) (f : Folded) :
    (((ps.filterMap component?).foldl Folded.push f).names.reverse.map String.toList).Sublist
      (f.names.reverse.map String.toList ++ ps) := by
  induction ps generalizing f with
  | nil => simp
  | cons piece ps ih =>
    have hcons : (f.names.reverse.map String.toList ++ ps).Sublist
        (f.names.reverse.map String.toList ++ piece :: ps) :=
      (List.sublist_cons_self piece ps).append_left _
    by_cases hsilent : (piece == [] || piece == ['.']) = true
    · rw [List.filterMap_cons_none (by rw [component?, if_pos hsilent])]
      exact (ih f).trans hcons
    by_cases hdots : (piece == ['.', '.']) = true
    · rw [List.filterMap_cons_some (by rw [component?, if_neg hsilent, if_pos hdots]),
        List.foldl_cons]
      obtain ⟨absolute, names⟩ := f
      cases names with
      | nil =>
        obtain rfl : piece = ['.', '.'] := by simpa using hdots
        exact ih _
      | cons n names =>
        refine ((ih _).trans ?_).trans hcons
        exact List.Sublist.append_right (by simp [Folded.push]) ps
    · rw [List.filterMap_cons_some (by rw [component?, if_neg hsilent, if_neg hdots]),
        List.foldl_cons]
      have hname := ih (f.push (.name (String.ofList piece)))
      simpa [Folded.push] using hname

theorem absolute_fold (p : Path) : p.fold.absolute = p.isAbsolute := by
  rw [fold_eq_folded_route, Route.folded, absolute_route]

/-- The names of a normal form are some of the pieces of the path. -/
theorem names_fold_sublist (p : Path) : (p.fold.names.reverse.map String.toList).Sublist
    (if p.isAbsolute then (pieces p.text.toList).tail else pieces p.text.toList) := by
  cases habs : p.isAbsolute with
  | true =>
    rw [isAbsolute, beq_iff_eq] at habs
    obtain ⟨cs, hcs⟩ := List.head?_eq_some_iff.1 habs
    have hfold : p.fold = ((pieces cs).filterMap component?).foldl Folded.push ⟨true, []⟩ := by
      rw [fold, components, isAbsolute, hcs, pieces_slash_cons, List.filterMap_cons_none rfl]
      rfl
    rw [hfold, hcs, pieces_slash_cons]
    exact names_foldl_sublist (pieces cs) ⟨true, []⟩
  | false =>
    have hfold : p.fold = ((pieces p.text.toList).filterMap component?).foldl Folded.push {} := by
      rw [fold, components, habs, List.foldl_append]
      split
      · exact absurd ‹_› (by simp)
      · split <;> rfl
    rw [hfold]
    exact names_foldl_sublist (pieces p.text.toList) {}

/-- **The text of a normal form** is a part of the text of the path. -/
theorem toList_normalize_sublist (p : Path) :
    (p.normalize.text.toList).Sublist p.text.toList := by
  have hwhole (cs : List Char) : ['/'].intercalate (pieces cs) = cs := by
    rw [pieces_eq_splitOn, List.intercalate_splitOn]
  have hnames := intercalate_sublist (names_fold_sublist p)
  rw [normalize, Folded.toList_toPath, absolute_fold]
  cases habs : p.isAbsolute with
  | true =>
    rw [habs, if_pos rfl] at hnames
    rw [isAbsolute, beq_iff_eq] at habs
    obtain ⟨cs, hcs⟩ := List.head?_eq_some_iff.1 habs
    rw [hcs, pieces_slash_cons, List.tail_cons, hwhole] at hnames
    rw [hcs]
    exact hnames.cons_cons '/'
  | false =>
    rw [habs, if_neg (by simp), hwhole] at hnames
    exact hnames

theorem toList_mem_pieces {p : Path} {n : String} (h : n ∈ p.fold.names) :
    n.toList ∈ pieces p.text.toList := by
  have hmem : n.toList ∈ p.fold.names.reverse.map String.toList :=
    List.mem_map_of_mem (List.mem_reverse.2 h)
  have hpiece := (names_fold_sublist p).mem hmem
  split at hpiece
  · exact List.mem_of_mem_tail hpiece
  · exact hpiece

/-- Nothing is left of a path that has no names and goes up an even number of folders. -/
theorem text_normalize_eq_empty_iff {p : Path} : p.normalize.text = "" ↔
    p.isAbsolute = false ∧ p.route.names = [] ∧ p.route.ups % 2 ≠ 1 := by
  have hnormal := isNormal_fold p
  have hnames : p.fold.names = [] ↔ p.route.names = [] ∧ p.route.ups % 2 ≠ 1 := by
    rw [fold_eq_folded_route, Route.folded, Route.dots]
    simp
  rw [normalize, ← absolute_fold, ← hnames]
  generalize p.fold = f at hnormal
  obtain ⟨absolute, names⟩ := f
  cases names with
  | nil => cases absolute <;> simp [Folded.toPath]
  | cons n names =>
    obtain ⟨a, ha⟩ := Folded.exists_toList_toPath absolute n names
    have hn : n ≠ "" := hnormal.ne_empty n List.mem_cons_self
    rw [← String.toList_inj, ha]
    simp [hn]

/-- Starting in a folder at some depth, the normal form of the path leads where the path leads: it
begins with a slash, or it goes up one folder at most, or there are not more folders to go up, and
it does not come back to the folder where it starts. -/
def NormalizesFrom (p : Path) (depth : Nat) : Prop :=
  p.isAbsolute = true ∨
    (p.route.ups ≤ 1 ∨ depth = 0 ∨ depth = 1 ∧ p.route.ups % 2 = 1) ∧
      (p.route.names ≠ [] ∨ p.route.ups % 2 = 1)

instance (p : Path) (depth : Nat) : Decidable (p.NormalizesFrom depth) := by
  unfold NormalizesFrom
  infer_instance

end GlyphTrim.Path
