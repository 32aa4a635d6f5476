import GlyphTrim.Proofs.Disk.Change
import GlyphTrim.Proofs.Disk.Place
import GlyphTrim.Proofs.Path.Route
import Mathlib.Data.List.Induction
import Mathlib.Data.String.Basic

/-!
# What normal forms name

On a disk without links a path names what its normal form names, as long as the normal form keeps
the number of folders that the path goes up and is not empty (`Disk.names_normalize_iff`). Both can
fail for relative paths: two dots behind two dots are taken for their way back down, and nothing is
left of a path that comes back to where it starts.
-/

namespace GlyphTrim

open GlyphTrim.Path (Route)

/-! ## Where routes lead -/

/-- The location some folders up. -/
def Location.ascend (l : Location) (ups : Nat) : Location := l.take (l.length - ups)

theorem Location.ascend_succ (l : Location) (ups : Nat) :
    l.ascend (ups + 1) = (l.ascend ups).dropLast := by
  unfold ascend
  by_cases h : l.length - ups < l.length
  · rw [List.dropLast_take h, Nat.sub_sub]
  · rw [List.take_of_length_le (Nat.le_of_not_lt h), List.dropLast_eq_take]
    congr 1
    omega

/-- Going up an odd number of folders is the same as going up one, and going up an even number the
same as staying, where there are not so many folders. -/
theorem Location.ascend_eq_ascend_mod_two_iff {l : Location} {ups : Nat} :
    l.ascend ups = l.ascend (ups % 2) ↔
      ups ≤ 1 ∨ l = [] ∨ l.length = 1 ∧ ups % 2 = 1 := by
  rw [← List.length_eq_zero_iff]
  constructor
  · intro h
    have hlength := congrArg List.length h
    simp only [ascend, List.length_take] at hlength
    omega
  · intro h
    unfold ascend
    congr 1
    omega

/-- Where a route leads from a location. -/
def Location.follow (l : Location) (r : Route) : Location :=
  (if r.absolute then [] else l : Location).ascend r.ups ++ r.names.reverse

theorem Location.follow_push (l : Location) (r : Route) (c : Path.Component) :
    l.follow (r.push c) = (l.follow r).push c := by
  obtain ⟨absolute, ups, names⟩ := r
  cases c with
  | root => rfl
  | current => rfl
  | name n =>
    simp only [follow, Route.push, push, List.reverse_cons, List.append_assoc]
    rfl
  | parent =>
    cases names with
    | nil =>
      simp only [follow, Route.push, push, List.reverse_nil, List.append_nil]
      exact ascend_succ _ ups
    | cons n names =>
      simp only [follow, Route.push, push, List.reverse_cons, ← List.append_assoc,
        List.dropLast_concat]
      rfl

namespace Disk

variable {d : Disk} {p : Path} {l : Location} {t : Tree}

theorem place_eq_follow (d : Disk) (p : Path) : d.place p = d.current.follow p.route := by
  have hfold : ∀ (cs : List Path.Component) (r : Route),
      cs.foldl Location.push (d.current.follow r) = d.current.follow (cs.foldl Route.push r) := by
    intro cs
    induction cs with
    | nil => exact fun r => rfl
    | cons c cs ih =>
      intro r
      rw [List.foldl_cons, ← Location.follow_push, ih, List.foldl_cons]
  have hstart : d.current.follow {} = d.current := by simp [Location.follow, Location.ascend]
  rw [place, Path.route, ← hfold, hstart]

/-! ## Steps of a normal form -/

theorem steps_normalize (p : Path) :
    steps p.normalize = Route.dots p.route.ups ++ p.route.names.reverse := by
  have hsteps : ∀ f : Path.Folded, f.IsNormal → steps f.toPath = f.names.reverse := by
    rintro ⟨absolute, names⟩ hf
    cases names with
    | nil => cases absolute <;> rfl
    | cons n names =>
      have hne : ∀ m ∈ (n :: names).reverse.map String.toList, (m != []) = true := by
        intro m hm
        obtain ⟨k, hk, rfl⟩ := List.mem_map.1 hm
        simpa using hf.ne_empty k (List.mem_reverse.1 hk)
      have hfront : (if absolute then [[]] else []).filter (fun m : List Char => m != []) = [] := by
        cases absolute <;> rfl
      rw [steps, hf.pieces_toPath, List.filter_append, hfront, List.filter_eq_self.2 hne,
        List.nil_append, Path.Folded.map_ofList_map_toList]
  have hnormal := Path.isNormal_fold p
  have hreverse : (Route.dots p.route.ups).reverse = Route.dots p.route.ups := by
    unfold Route.dots
    split <;> rfl
  rw [Path.normalize, hsteps _ hnormal, Path.fold_eq_folded_route, Route.folded,
    List.reverse_append, hreverse]

/-! ## Following a normal form -/

section

variable {root : Tree} {last : Bool}

/-- What leads to something is a folder. -/
theorem folder_of_append {names : List String} (hne : names ≠ [])
    (h : root.thing? (l ++ names) ≠ none) : root.thing? l = some .folder := by
  induction names using List.reverseRecOn with
  | nil => exact absurd rfl hne
  | append_singleton names n ih =>
    rw [← List.append_assoc] at h
    have hfolder := Tree.thing?_eq_folder_of_append h
    by_cases hnil : names = []
    · rwa [hnil, List.append_nil] at hfolder
    · exact ih hnil (by rw [hfolder]; simp)

/-- Names of what is there can be followed. -/
theorem follows_names (hlinks : root.NoLinks) {here : Location} {names : List String}
    (hnames : ∀ n ∈ names, Path.IsFileName n ∧ n.utf8ByteSize ≤ nameBound)
    (h : root.thing? (here ++ names) ≠ none) :
    Follows root last here names (.at (here ++ names)) := by
  induction names generalizing here with
  | nil =>
    rw [List.append_nil]
    exact .done here
  | cons n names ih =>
    obtain ⟨⟨hn, hshort⟩, hnames⟩ := List.forall_mem_cons.1 hnames
    have hfolder := folder_of_append (List.cons_ne_nil n names) h
    rw [List.append_cons] at h ⊢
    exact .name hfolder hn.ne_dot hn.ne_dots hshort (fun target => hlinks _ target) (ih hnames h)

/-- Names that were followed are not too long. -/
theorem Follows.le_nameBound (hlinks : root.NoLinks) {here : Location} {pieces : List String}
    {halt : Halt} (h : Follows root last here pieces halt) {n : String} (hn : n ∈ pieces)
    (hdot : n ≠ ".") (hdots : n ≠ "..") : n.utf8ByteSize ≤ nameBound := by
  induction h with
  | done here => exact absurd hn (by simp)
  | dot _ _ ih => exact ih ((List.mem_cons.1 hn).resolve_left hdot)
  | dots _ _ ih => exact ih ((List.mem_cons.1 hn).resolve_left hdots)
  | name _ _ _ hshort _ _ ih =>
    rcases List.mem_cons.1 hn with rfl | hn
    · exact hshort
    · exact ih hn
  | lastLink _ _ _ _ htarget => exact absurd htarget (hlinks _ _)
  | link _ _ _ _ htarget => exact absurd htarget (hlinks _ _)

/-- Where something is followed there is a folder. -/
theorem Follows.folder {here : Location} {pieces : List String} {halt : Halt}
    (h : Follows root last here pieces halt) (hne : pieces ≠ []) :
    root.thing? here = some .folder := by
  cases h with
  | done here => exact absurd rfl hne
  | dot hfolder | dots hfolder | name hfolder | lastLink hfolder | link hfolder => exact hfolder

end

/-! ## What a normal form names -/

/-- The path names the tree that stands at the location. -/
structure Names (d : Disk) (p : Path) (l : Location) (t : Tree) : Prop where
  locate_eq : d.locate true p = .ok l
  find_eq : d.find true p = .ok t

theorem names_iff : d.Names p l t ↔ d.locate true p = .ok l ∧ d.root.at? l = some t ∧
    (asksFolder p = true → t.isFolder = true) := by
  constructor
  · rintro ⟨hl, hfind⟩
    rw [find, Bool.true_or, hl] at hfind
    cases hu : d.root.at? l with
    | none => simp [hu] at hfind
    | some u =>
      simp only [hu] at hfind
      split at hfind
      · exact absurd hfind (by simp)
      · rename_i hask
        obtain rfl := Except.ok.inj hfind
        exact ⟨hl, rfl, fun h => by simpa [h] using hask⟩
  · rintro ⟨hl, hu, hask⟩
    refine ⟨hl, ?_⟩
    rw [find, Bool.true_or, hl]
    simp only [hu]
    rw [if_neg]
    simpa using hask

theorem ups_eq_zero_of_steps (h : steps p = []) : p.route.ups = 0 := by
  have hnone : (Path.pieces p.text.toList).filterMap Path.component? = [] := by
    refine List.filterMap_eq_nil_iff.2 fun piece hpiece => ?_
    have hnil : piece = [] := by
      by_contra hne
      have hmem : String.ofList piece ∈ steps p :=
        List.mem_map_of_mem (List.mem_filter.2 ⟨hpiece, by simpa using hne⟩)
      rw [h] at hmem
      exact absurd hmem (by simp)
    rw [hnil]
    rfl
  rw [Path.route, Path.components, hnone, List.append_nil]
  split
  · rfl
  · split <;> rfl

/-- The names of a route are among the steps of the path. -/
theorem mem_steps_of_mem_route {n : String} (h : n ∈ p.route.names) : n ∈ steps p := by
  have hfold : n ∈ p.fold.names := by
    rw [Path.fold_eq_folded_route]
    exact List.mem_append_left _ h
  have hne : n.toList ≠ [] := by simpa using (Path.isFileName_of_mem_route h).ne_empty
  have hpiece : n.toList ∈ (Path.pieces p.text.toList).filter (· != []) :=
    List.mem_filter.2 ⟨Path.toList_mem_pieces hfold, by simpa using hne⟩
  exact List.mem_map.2 ⟨n.toList, hpiece, String.ofList_toList⟩

theorem isAbsolute_normalize (p : Path) : p.normalize.isAbsolute = p.isAbsolute := by
  rw [← Path.absolute_route, Path.route_normalize, Path.absolute_route]

/-- A normal form that ends with a slash is the slash at the start. -/
theorem route_of_asksFolder_normalize (h : asksFolder p.normalize = true) :
    p.isAbsolute = true ∧ p.fold.names = [] := by
  rw [asksFolder, beq_iff_eq, Path.normalize] at h
  have hnormal := Path.isNormal_fold p
  rw [← Path.absolute_fold]
  generalize p.fold = f at h hnormal
  obtain ⟨absolute, names⟩ := f
  cases names with
  | nil => cases absolute <;> simp_all [Path.Folded.toPath]
  | cons n names =>
    obtain ⟨a, ha⟩ := Path.Folded.exists_toList_toPath absolute n names
    have hn : n.toList ≠ [] := by simpa using hnormal.ne_empty n List.mem_cons_self
    rw [ha, List.getLast?_append_of_ne_nil a hn] at h
    exact absurd (List.mem_of_getLast? h) (hnormal.not_slash n List.mem_cons_self)

section

variable (hlinks : d.root.NoLinks) (h : d.Names p l t)

include hlinks h

theorem Names.follows : Follows d.root true (startOf d.current p) (steps p) (.at l) := by
  obtain ⟨-, hleads⟩ := locate_eq_ok_iff.1 h.locate_eq
  cases hleads with
  | here hhere => exact hhere
  | link hhalt => exact absurd (hhalt.eq_at hlinks) (by simp)

/-- A normal form can be followed if it leads to something that the path names. -/
theorem Names.follows_normalize (hplace : d.place p.normalize = l) :
    Follows d.root true (startOf d.current p.normalize) (steps p.normalize) (.at l) := by
  have hthing : d.root.thing? l ≠ none := by
    rw [Tree.thing?, (names_iff.1 h).2.1]
    simp
  have hnames : ∀ n ∈ p.route.names.reverse,
      Path.IsFileName n ∧ n.utf8ByteSize ≤ nameBound := by
    intro n hn
    have hn := List.mem_reverse.1 hn
    have hname := Path.isFileName_of_mem_route hn
    exact ⟨hname, (h.follows hlinks).le_nameBound hlinks (mem_steps_of_mem_route hn) hname.ne_dot
      hname.ne_dots⟩
  have hstart : startOf d.current p.normalize = startOf d.current p := by
    rw [startOf, startOf, isAbsolute_normalize]
  have hfollow : (startOf d.current p).ascend (p.route.ups % 2) ++ p.route.names.reverse = l := by
    rw [← hplace, place_eq_follow, Path.route_normalize, Location.follow, Path.absolute_route]
    rfl
  rw [hstart, steps_normalize, Route.dots]
  rw [← hfollow] at hthing ⊢
  rcases Nat.mod_two_eq_zero_or_one p.route.ups with hups | hups <;> rw [hups] at hthing ⊢
  · have hstay : (startOf d.current p).ascend 0 = startOf d.current p := List.take_length
    rw [hstay] at hthing ⊢
    exact follows_names hlinks hnames hthing
  · have hsteps : steps p ≠ [] := fun hnil => by simp [ups_eq_zero_of_steps hnil] at hups
    have hup : (startOf d.current p).ascend 1 = (startOf d.current p).dropLast := by
      rw [Location.ascend_succ, Location.ascend, Nat.sub_zero, List.take_length]
    rw [hup] at hthing ⊢
    exact .dots ((h.follows hlinks).folder hsteps) (follows_names hlinks hnames hthing)

/-- **A normal form names what the path names** if it leads there. -/
theorem Names.normalize (hplace : d.place p.normalize = l) (hne : p.normalize.text ≠ "") :
    d.Names p.normalize l t := by
  obtain ⟨hl, ht, hask⟩ := names_iff.1 h
  obtain ⟨⟨hnul, -, hlong⟩, -⟩ := locate_eq_ok_iff.1 hl
  have htext := Path.toList_normalize_sublist p
  have hsize : p.normalize.text.utf8ByteSize ≤ p.text.utf8ByteSize := by
    have hlen := String.utf8Len_le_of_sublist htext
    rwa [← String.utf8ByteSize_ofList, ← String.utf8ByteSize_ofList, String.ofList_toList,
      String.ofList_toList] at hlen
  have hfollows := h.follows_normalize hlinks hplace
  refine names_iff.2 ⟨locate_eq_ok_iff.2
    ⟨⟨fun hmem => hnul (htext.mem hmem), hne, hsize.trans hlong⟩, .here hfollows⟩, ht, ?_⟩
  intro hslash
  obtain ⟨habs, hnames⟩ := route_of_asksFolder_normalize hslash
  by_cases hsteps : steps p = []
  · have hempty : p.text ≠ "" := (locate_eq_ok_iff.1 hl).1.2.1
    exact hask (asksFolder_of_steps_eq_nil hempty hsteps).2
  · -- something is followed from the root, so it is a folder
    have hroot := (h.follows hlinks).folder hsteps
    have hnil : l = [] := by
      rw [Path.fold_eq_folded_route, Route.folded, List.append_eq_nil_iff] at hnames
      rw [← hplace, place_eq_follow, Path.route_normalize, Location.follow, Path.absolute_route,
        habs, hnames.1]
      simp [Location.ascend]
    rw [hnil, Tree.at?_nil, Option.some.injEq] at ht
    rw [startOf, if_pos habs, Tree.thing?_nil, ht] at hroot
    cases t with
    | folder entries => rfl
    | file bytes | link target => exact absurd hroot (by simp [Tree.thing])

/-- The normal form leads where the path leads if going up is the same. -/
theorem Names.place_normalize_iff : d.place p.normalize = l ↔
    (startOf d.current p).ascend p.route.ups =
      (startOf d.current p).ascend (p.route.ups % 2) := by
  have hpath : l = (startOf d.current p).ascend p.route.ups ++ p.route.names.reverse := by
    rw [place_of_locate hlinks h.locate_eq, place_eq_follow, Location.follow, Path.absolute_route]
    rfl
  have hnormal : d.place p.normalize =
      (startOf d.current p).ascend (p.route.ups % 2) ++ p.route.names.reverse := by
    rw [place_eq_follow, Path.route_normalize, Location.follow, Path.absolute_route]
    rfl
  rw [hpath, hnormal, List.append_left_inj, eq_comm]

/-- **What a normal form names**: without links it names what the path names exactly if it keeps the
way up and is not empty, and so does a path that is taken from a root. -/
theorem names_normalize_iff :
    (d.Names p.normalize l t ↔ p.NormalizesFrom d.current.length) ∧
      ∀ root q : Path, root.join q = p →
        (d.Names (root.resolve q) l t ↔ p.NormalizesFrom d.current.length) := by
  have hiff : d.Names p.normalize l t ↔ p.NormalizesFrom d.current.length := by
    have hnames : d.Names p.normalize l t ↔
        d.place p.normalize = l ∧ p.normalize.text ≠ "" := by
      constructor
      · intro hnormal
        obtain ⟨⟨-, hne, -⟩, -⟩ := locate_eq_ok_iff.1 hnormal.locate_eq
        exact ⟨(place_of_locate hlinks hnormal.locate_eq).symm, hne⟩
      · rintro ⟨hplace, hne⟩
        exact h.normalize hlinks hplace hne
    rw [hnames, h.place_normalize_iff hlinks, Location.ascend_eq_ascend_mod_two_iff, ne_eq,
      Path.text_normalize_eq_empty_iff, Path.NormalizesFrom, startOf]
    cases habs : p.isAbsolute with
    | true => simp
    | false =>
      simp only [Bool.false_eq_true, if_false, false_or, List.length_eq_zero_iff, true_and]
      rw [not_and_or, not_not]
  exact ⟨hiff, fun root q hq => by rw [Path.resolve, hq, hiff]⟩

end

/-- A disk with two folders beside each other, of which one is the current one. -/
def twoFolders : Disk :=
  ⟨.folder [.mk "lib" (.folder [.mk "src" (.folder [])]), .mk "proj" (.folder [])], ["proj"]⟩

theorem noLinks_twoFolders : twoFolders.root.NoLinks := by
  refine Tree.noLinks_folder fun n t ht => ?_
  simp only [List.mem_cons, List.not_mem_nil, or_false, Entry.mk.injEq] at ht
  rcases ht with ⟨-, rfl⟩ | ⟨-, rfl⟩
  · refine Tree.noLinks_folder fun n t ht => ?_
    obtain ⟨-, rfl⟩ : n = "src" ∧ t = .folder [] := by simpa using ht
    exact Tree.noLinks_folder (by simp)
  · exact Tree.noLinks_folder (by simp)

/-- From a folder beside it, a folder is found through the folder around both. -/
theorem names_normalize_beside :
    (twoFolders.root.NoLinks ∧
      twoFolders.Names ⟨"./../proj/../lib/src"⟩ ["lib", "src"] (.folder [])) ∧
      twoFolders.Names (Path.normalize ⟨"./../proj/../lib/src"⟩) ["lib", "src"] (.folder []) ∧
      twoFolders.Names (Path.resolve ⟨"./../proj"⟩ ⟨"../lib/src"⟩) ["lib", "src"]
        (.folder []) := by
  have h : twoFolders.Names ⟨"./../proj/../lib/src"⟩ ["lib", "src"] (.folder []) := ⟨rfl, rfl⟩
  obtain ⟨hnormal, hresolve⟩ := names_normalize_iff noLinks_twoFolders h
  exact ⟨⟨noLinks_twoFolders, h⟩, hnormal.2 (by decide), (hresolve _ _ (by decide)).2 (by decide)⟩

/-- Two folders up, the normal form names nothing, since the second two dots take the first away. -/
theorem not_forall_names_normalize : ¬ ∀ (d : Disk) (p : Path) (l : Location) (t : Tree),
    d.root.NoLinks → d.Names p l t → d.Names p.normalize l t := by
  intro h
  have hnames : twoFolders.Names ⟨"../.."⟩ [] twoFolders.root := ⟨rfl, rfl⟩
  have hnormal := (h _ _ _ _ noLinks_twoFolders hnames).locate_eq
  exact absurd hnormal (by decide)

end Disk

end GlyphTrim
