import GlyphTrim.Proofs.Path.Route
import GlyphTrim.Scan.Walk

/-!
# Normal forms are stable

A normal form is written without single dots, and with two dots at most once: in front of all names,
and behind the slash if it begins with one (`Path.IsNormalForm`). Paths in this form are the ones
that normalizing leaves alone (`isNormalForm_iff`), and paths taken from a root are among them. So a
search for source files compares the paths of its entries and its exclusions as they are
(`normalize_stable`).
-/

namespace GlyphTrim.Path

/-- A path that is written from names, with two dots in front of them or not. -/
def IsNormalForm (p : Path) : Prop :=
  ∃ (up : Bool) (names : List String), (∀ n ∈ names, IsFileName n) ∧
    p.text = (if p.isAbsolute then "/" else "") ++
      "/".intercalate ((if up then [".."] else []) ++ names) ∧
    p.components = (if p.isAbsolute then [.root] else []) ++
      ((if up then [.parent] else []) ++ names.map .name)

theorem isAbsolute_normalize (p : Path) : p.normalize.isAbsolute = p.isAbsolute := by
  rw [← absolute_fold, ← absolute_fold, fold_normalize]

theorem map_ofName_eq_map_name {names : List String} (h : ∀ n ∈ names, IsFileName n) :
    names.map Component.ofName = names.map .name :=
  List.map_congr_left fun n hn => if_neg (h n hn).ne_dots

/-- **The shape of a normal form.** Two dots are left if the path goes up an odd number of
folders. -/
theorem isNormalForm_normalize (p : Path) : p.normalize.IsNormalForm := by
  have hfile : ∀ n ∈ p.route.names.reverse, IsFileName n := fun n hn =>
    isFileName_of_mem_route (List.mem_reverse.1 hn)
  have hnames : p.fold.names.reverse =
      (if decide (p.route.ups % 2 = 1) then [".."] else []) ++ p.route.names.reverse := by
    rw [fold_eq_folded_route, Route.folded, Route.dots, List.reverse_append]
    by_cases hodd : p.route.ups % 2 = 1 <;> simp [hodd]
  refine ⟨decide (p.route.ups % 2 = 1), p.route.names.reverse, hfile, ?_, ?_⟩
  · rw [isAbsolute_normalize, ← hnames, ← absolute_fold]
    rfl
  · rw [isAbsolute_normalize, normalize, (isNormal_fold p).components_toPath, hnames,
      absolute_fold, List.map_append, map_ofName_eq_map_name hfile]
    by_cases hodd : p.route.ups % 2 = 1 <;> simp [hodd, Component.ofName]

/-- Names behind two dots are folded to themselves. -/
theorem foldl_push_names (up : Bool) {names : List String} (h : ∀ n ∈ names, IsFileName n)
    (absolute : Bool) :
    ((if up then [.parent] else []) ++ names.map .name : List Component).foldl Folded.push
        ⟨absolute, []⟩ = ⟨absolute, names.reverse ++ if up then [".."] else []⟩ := by
  have hdots : ∀ n ∈ names.reverse, n ≠ ".." := fun n hn => (h n (List.mem_reverse.1 hn)).ne_dots
  rw [List.foldl_append, ← map_ofName_eq_map_name h, Folded.foldl_push_ofName]
  · cases up <;> rfl
  · cases up with
    | true => simpa [Folded.push] using hdots
    | false =>
      intro n hn
      exact hdots n (by simpa using (List.dropLast_sublist _).subset hn)

/-- **Normal forms** are the paths that normalizing leaves alone. -/
theorem isNormalForm_iff {p : Path} : p.IsNormalForm ↔ p.normalize = p := by
  constructor
  · rintro ⟨up, names, hfile, htext, hcomponents⟩
    have hfold : p.fold = ⟨p.isAbsolute, names.reverse ++ if up then [".."] else []⟩ := by
      rw [← foldl_push_names up hfile, fold, hcomponents, List.foldl_append]
      cases p.isAbsolute <;> rfl
    have hwritten : p.normalize.text = p.text := by
      rw [normalize, hfold, Folded.toPath, htext, List.reverse_append, List.reverse_reverse]
      cases up <;> rfl
    exact congrArg Path.mk hwritten
  · intro h
    exact h ▸ isNormalForm_normalize p

theorem normalize_resolve (root p : Path) : (root.resolve p).normalize = root.resolve p :=
  normalize_normalize (root.join p)

theorem map_normalize_map_resolve (root : Path) (ps : List Path) :
    (ps.map root.resolve).map normalize = ps.map root.resolve := by
  rw [List.map_map]
  exact List.map_congr_left fun p _ => normalize_resolve root p

/-- **Normal forms are stable.** Normalizing a second time changes nothing, and what it leaves alone
are the normal forms. What is taken from a root is one, so paths that are taken from roots are equal
exactly if their normal forms are, and looking for source files compares such paths as they are. -/
theorem normalize_stable (p : Path) :
    p.normalize.normalize = p.normalize ∧ p.normalize.IsNormalForm ∧
      (p.IsNormalForm ↔ p.normalize = p) ∧
      (∀ root : Path, (root.resolve p).normalize = root.resolve p ∧
        ∀ root' q : Path, (root.resolve p).normalize = (root'.resolve q).normalize ↔
          root.resolve p = root'.resolve q) ∧
      ∀ (d : Disk) (root : Path) (entries excluded : List Path),
        Scan.findSources d (entries.map root.resolve) (excluded.map root.resolve) =
          (entries.map root.resolve).foldl
            (Scan.Found.addEntry d fun q => (excluded.map root.resolve).contains q) {} := by
  refine ⟨normalize_normalize p, isNormalForm_normalize p, isNormalForm_iff, fun root =>
    ⟨normalize_resolve root p, fun root' q => ?_⟩, fun d root entries excluded => ?_⟩
  · rw [normalize_resolve, normalize_resolve]
  · rw [Scan.findSources, map_normalize_map_resolve, map_normalize_map_resolve]

/-- Two leading `..` take each other away, and what is left begins with no dots. -/
example : (⟨"./../../a/./b/../c/"⟩ : Path).normalize = ⟨"a/c"⟩ := by decide

end GlyphTrim.Path
