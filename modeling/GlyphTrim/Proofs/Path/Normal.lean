import GlyphTrim.Path
import Mathlib.Data.List.Basic

/-!
# Normal forms of paths

A path in normal form is known from its components: whether it begins with a slash, and its names
(`Path.Folded`). `fold_toPath` says that a folded path is read back from its text, so normal forms
are stable (`fold_normalize`) and distinct folded paths are distinct texts. A name behind a normal
form is one name more (`Folded.IsNormal.join_toPath`). `Path.IsWithin` says that a path is at or
below another one, and `below_isWithin_iff` when that is so for a path below a third one.
-/

namespace GlyphTrim.Path

/-! ## Pieces -/

/-- Pieces are what stands between the slashes. -/
theorem pieces_eq_splitOn (cs : List Char) : pieces cs = cs.splitOn '/' := by
  induction cs with
  | nil => rfl
  | cons c cs ih =>
    obtain ⟨piece, more, h⟩ := List.exists_cons_of_ne_nil (List.splitOn_ne_nil '/' cs)
    rw [pieces, ih, List.splitOn_cons_eq_if_modifyHead, h]
    rfl

theorem pieces_slash_cons (cs : List Char) : pieces ('/' :: cs) = [] :: pieces cs := by
  rw [pieces_eq_splitOn, pieces_eq_splitOn, List.splitOn_cons_eq_if_modifyHead]
  rfl

/-- What is put together with slashes falls into its pieces again. -/
theorem pieces_intercalate {ps : List (List Char)} (hne : ps ≠ []) (h : ∀ p ∈ ps, '/' ∉ p) :
    pieces (['/'].intercalate ps) = ps := by
  rw [pieces_eq_splitOn, List.splitOn_intercalate '/' h hne]

/-- No piece holds a slash. -/
theorem not_mem_of_mem_pieces {cs piece : List Char} (h : piece ∈ pieces cs) : '/' ∉ piece := by
  rw [pieces_eq_splitOn] at h
  induction cs generalizing piece with
  | nil =>
    obtain rfl : piece = [] := by simpa using h
    simp
  | cons c cs ih =>
    obtain ⟨first, more, hcs⟩ := List.exists_cons_of_ne_nil (List.splitOn_ne_nil '/' cs)
    rw [hcs] at ih
    rw [List.splitOn_cons_eq_if_modifyHead, hcs] at h
    by_cases hc : c = '/'
    · rw [if_pos (beq_iff_eq.2 hc)] at h
      rcases List.mem_cons.1 h with rfl | h
      · simp
      · exact ih h
    · rw [if_neg (by simpa using hc), List.modifyHead_cons] at h
      rcases List.mem_cons.1 h with rfl | h
      · exact mt List.mem_cons.1 (not_or.2 ⟨Ne.symm hc, ih List.mem_cons_self⟩)
      · exact ih (List.mem_cons_of_mem first h)

/-! ## Names and normal forms -/

/-- Names that a file or a folder can have. -/
structure IsFileName (n : String) : Prop where
  ne_empty : n ≠ ""
  not_slash : '/' ∉ n.toList
  ne_dot : n ≠ "."
  ne_dots : n ≠ ".."

theorem isFileName_iff {n : String} :
    IsFileName n ↔ n ≠ "" ∧ '/' ∉ n.toList ∧ n ≠ "." ∧ n ≠ ".." :=
  ⟨fun ⟨h, hslash, hdot, hdots⟩ => ⟨h, hslash, hdot, hdots⟩,
    fun ⟨h, hslash, hdot, hdots⟩ => ⟨h, hslash, hdot, hdots⟩⟩

instance (n : String) : Decidable (IsFileName n) := decidable_of_iff' _ isFileName_iff

/-- Components whose name is the name of a file or a folder. -/
def Component.IsProper : Component → Prop
  | .name n => IsFileName n
  | _ => True

/-- Folded paths that are normal forms: only the first name may be two dots. -/
structure Folded.IsNormal (f : Folded) : Prop where
  ne_empty : ∀ n ∈ f.names, n ≠ ""
  not_slash : ∀ n ∈ f.names, '/' ∉ n.toList
  ne_dot : ∀ n ∈ f.names, n ≠ "."
  ne_dots : ∀ n ∈ f.names.dropLast, n ≠ ".."

theorem isProper_of_mem_components {p : Path} {c : Component} (h : c ∈ p.components) :
    c.IsProper := by
  simp only [components, List.mem_append, List.mem_filterMap] at h
  rcases h with h | ⟨piece, hpiece, h⟩
  · split at h
    · obtain rfl := List.mem_singleton.1 h
      trivial
    · split at h
      · obtain rfl := List.mem_singleton.1 h
        trivial
      · exact absurd h (by simp)
  · have hslash := not_mem_of_mem_pieces hpiece
    unfold component? at h
    split at h
    · exact absurd h (by simp)
    · rename_i hsilent
      split at h
      · obtain rfl := Option.some.inj h
        trivial
      · rename_i hdots
        obtain rfl := Option.some.inj h
        simp only [Bool.or_eq_true, beq_iff_eq, not_or] at hsilent hdots
        constructor <;> simp_all [← String.toList_inj]

theorem Folded.IsNormal.push {f : Folded} (hf : f.IsNormal) {c : Component} (hc : c.IsProper) :
    (f.push c).IsNormal := by
  cases c with
  | root => constructor <;> simp [Folded.push]
  | current => exact hf
  | parent =>
    obtain ⟨absolute, names⟩ := f
    cases names with
    | nil => constructor <;> simp [Folded.push]
    | cons n names =>
      constructor <;> intro m hm
      · exact hf.ne_empty m (List.mem_cons_of_mem n hm)
      · exact hf.not_slash m (List.mem_cons_of_mem n hm)
      · exact hf.ne_dot m (List.mem_cons_of_mem n hm)
      · cases names with
        | nil => exact absurd hm (by simp [Folded.push])
        | cons k names => exact hf.ne_dots m (List.mem_cons_of_mem n hm)
  | name n =>
    have hname : IsFileName n := hc
    constructor <;> intro m hm
    · exact (List.mem_cons.1 hm).elim (· ▸ hname.ne_empty) (hf.ne_empty m)
    · exact (List.mem_cons.1 hm).elim (· ▸ hname.not_slash) (hf.not_slash m)
    · exact (List.mem_cons.1 hm).elim (· ▸ hname.ne_dot) (hf.ne_dot m)
    · obtain ⟨absolute, names⟩ := f
      cases names with
      | nil => exact absurd hm (by simp [Folded.push])
      | cons k names => exact (List.mem_cons.1 hm).elim (· ▸ hname.ne_dots) (hf.ne_dots m)

theorem Folded.isNormal_foldl {f : Folded} (hf : f.IsNormal) {cs : List Component}
    (hcs : ∀ c ∈ cs, c.IsProper) : (cs.foldl Folded.push f).IsNormal := by
  induction cs generalizing f with
  | nil => exact hf
  | cons c cs ih =>
    have hc : c.IsProper := hcs c List.mem_cons_self
    exact ih (hf.push hc) fun d hd => hcs d (List.mem_cons_of_mem c hd)

/-- Folding gives normal forms. -/
theorem isNormal_fold (p : Path) : p.fold.IsNormal := by
  apply Folded.isNormal_foldl
  · constructor <;> simp
  · exact fun c hc => isProper_of_mem_components hc

/-! ## Reading a normal form again -/

/-- The component that a name of a normal form is. -/
def Component.ofName (n : String) : Component := if n = ".." then .parent else .name n

theorem component?_toList {n : String} (hne : n ≠ "") (hdot : n ≠ ".") :
    component? n.toList = some (.ofName n) := by
  have hnil : n.toList ≠ [] := by simpa using hne
  have hsingle : n.toList ≠ ['.'] := fun h => hdot (String.toList_inj.1 h)
  unfold component? Component.ofName
  by_cases hdots : n = ".."
  · subst hdots
    rfl
  · have hpair : n.toList ≠ ['.', '.'] := fun h => hdots (String.toList_inj.1 h)
    simp [hnil, hsingle, hpair, hdots]

theorem Folded.toList_toPath (f : Folded) : f.toPath.text.toList =
    (if f.absolute then ['/'] else []) ++
      ['/'].intercalate (f.names.reverse.map String.toList) := by
  rw [Folded.toPath, String.toList_append, String.toList_intercalate]
  cases f.absolute <;> rfl

theorem filterMap_component?_map_toList {ns : List String} (hne : ∀ n ∈ ns, n ≠ "")
    (hdot : ∀ n ∈ ns, n ≠ ".") :
    (ns.map String.toList).filterMap component? = ns.map .ofName := by
  induction ns with
  | nil => rfl
  | cons n ns ih =>
    have hn := component?_toList (hne n List.mem_cons_self) (hdot n List.mem_cons_self)
    rw [List.map_cons, List.filterMap_cons_some hn, List.map_cons,
      ih (fun m hm => hne m (List.mem_cons_of_mem n hm))
        fun m hm => hdot m (List.mem_cons_of_mem n hm)]

theorem Folded.IsNormal.filterMap_component? {f : Folded} (hf : f.IsNormal) :
    (pieces (['/'].intercalate (f.names.reverse.map String.toList))).filterMap component? =
      f.names.reverse.map .ofName := by
  by_cases hnil : f.names.reverse = []
  · rw [hnil]
    rfl
  · rw [pieces_intercalate (by simpa using hnil) (by simpa using hf.not_slash)]
    exact filterMap_component?_map_toList (by simpa using hf.ne_empty) (by simpa using hf.ne_dot)

/-- A normal form that begins with a name begins with no slash and no dot. -/
theorem Folded.IsNormal.head_intercalate {f : Folded} (hf : f.IsNormal) :
    (['/'].intercalate (f.names.reverse.map String.toList)).head? ≠ some '/' ∧
      (pieces (['/'].intercalate (f.names.reverse.map String.toList))).head? ≠ some ['.'] := by
  cases hnames : f.names.reverse with
  | nil => simp [pieces]
  | cons n ns =>
    have hmem : ∀ m ∈ n :: ns, m ∈ f.names := fun m hm => by
      rw [← List.mem_reverse, hnames]
      exact hm
    have hn := hmem n List.mem_cons_self
    have hslash : ∀ p ∈ (n :: ns).map String.toList, '/' ∉ p := by
      simpa using fun m hm => hf.not_slash m (hmem m (List.mem_cons.2 hm))
    constructor
    · have hne : n.toList ≠ [] := by simpa using hf.ne_empty n hn
      obtain ⟨c, cs, hc⟩ := List.exists_cons_of_ne_nil hne
      have hhead : (['/'].intercalate ((n :: ns).map String.toList)).head? = some c := by
        cases ns <;> simp [hc]
      rw [hhead]
      rintro hslash'
      obtain rfl := Option.some.inj hslash'
      exact hf.not_slash n hn (by rw [hc]; exact List.mem_cons_self)
    · rw [pieces_intercalate (by simp) hslash]
      intro hdot
      exact hf.ne_dot n hn (String.toList_inj.1 (Option.some.inj hdot))

/-- **The components of a normal form** are its names. -/
theorem Folded.IsNormal.components_toPath {f : Folded} (hf : f.IsNormal) :
    f.toPath.components = (if f.absolute then [.root] else []) ++ f.names.reverse.map .ofName := by
  have hnames := hf.filterMap_component?
  obtain ⟨hhead, hdot⟩ := hf.head_intercalate
  unfold components isAbsolute
  rw [f.toList_toPath]
  cases f.absolute with
  | true =>
    simp only [if_true, List.singleton_append, pieces_slash_cons]
    rw [List.filterMap_cons_none rfl, hnames]
    rfl
  | false =>
    simp only [Bool.false_eq_true, if_false, List.nil_append]
    rw [hnames, if_neg (by simpa only [beq_iff_eq] using hhead),
      if_neg (by simpa only [beq_iff_eq] using hdot)]
    rfl

theorem Folded.foldl_push_ofName {f : Folded} {ns : List String}
    (h : ∀ n ∈ (ns.reverse ++ f.names).dropLast, n ≠ "..") :
    (ns.map Component.ofName).foldl Folded.push f = ⟨f.absolute, ns.reverse ++ f.names⟩ := by
  induction ns generalizing f with
  | nil => rfl
  | cons n ns ih =>
    have hpush : f.push (.ofName n) = ⟨f.absolute, n :: f.names⟩ := by
      unfold Component.ofName
      split
      · rename_i hdots
        cases hnames : f.names with
        | nil =>
          rw [hdots]
          simp [Folded.push, hnames]
        | cons k names =>
          refine absurd hdots (h n ?_)
          rw [hnames, List.dropLast_append_cons, List.reverse_cons]
          simp
      · rfl
    rw [List.map_cons, List.foldl_cons, hpush, ih (by simpa using h)]
    simp

/-- **A normal form is read back** from its text. -/
theorem Folded.IsNormal.fold_toPath {f : Folded} (hf : f.IsNormal) : f.toPath.fold = f := by
  obtain ⟨absolute, names⟩ := f
  have hdots : ∀ n ∈ (names.reverse.reverse ++ ([] : List String)).dropLast, n ≠ ".." := by
    simpa using hf.ne_dots
  rw [fold, hf.components_toPath, List.foldl_append]
  cases absolute with
  | true =>
    have hroot := @Folded.foldl_push_ofName ⟨true, []⟩ names.reverse hdots
    simpa [Folded.push] using hroot
  | false =>
    have hrel := @Folded.foldl_push_ofName ⟨false, []⟩ names.reverse hdots
    simpa using hrel

theorem Folded.IsNormal.toPath_inj {f g : Folded} (hf : f.IsNormal) (hg : g.IsNormal) :
    f.toPath = g.toPath ↔ f = g := by
  constructor
  · intro h
    rw [← hf.fold_toPath, h, hg.fold_toPath]
  · exact congrArg Folded.toPath

/-- **Normal forms are stable.** -/
theorem fold_normalize (p : Path) : p.normalize.fold = p.fold := (isNormal_fold p).fold_toPath

theorem normalize_normalize (p : Path) : p.normalize.normalize = p.normalize :=
  congrArg Folded.toPath (fold_normalize p)

theorem normalize_eq_iff {p q : Path} : p.normalize = q.normalize ↔ p.fold = q.fold :=
  (isNormal_fold p).toPath_inj (isNormal_fold q)

/-! ## Names behind a path -/

/-- The path behind a path that names lead to. -/
def below (p : Path) (names : List String) : Path := names.foldl (fun q n => q.join ⟨n⟩) p

@[simp]
theorem below_nil (p : Path) : p.below [] = p := rfl

@[simp]
theorem below_cons (p : Path) (n : String) (names : List String) :
    p.below (n :: names) = (p.join ⟨n⟩).below names := rfl

theorem not_isAbsolute_of_isFileName {n : String} (hn : IsFileName n) :
    (⟨n⟩ : Path).isAbsolute = false := by
  have hhead : n.toList.head? ≠ some '/' := fun h => hn.not_slash (List.mem_of_head? h)
  simpa [isAbsolute] using hhead

theorem Folded.text_toPath_singleton (absolute : Bool) (n : String) :
    (Folded.toPath ⟨absolute, [n]⟩).text = (if absolute then "/" else "") ++ n := by
  simp [Folded.toPath]

theorem Folded.text_toPath_cons (absolute : Bool) (n k : String) (names : List String) :
    (Folded.toPath ⟨absolute, n :: k :: names⟩).text =
      (Folded.toPath ⟨absolute, k :: names⟩).text ++ "/" ++ n := by
  have hlast : "/".intercalate ((k :: names).reverse ++ [n]) =
      "/".intercalate (k :: names).reverse ++ "/" ++ n := by
    rw [String.intercalate_append_of_ne_nil (by simp) (by simp), String.intercalate_singleton]
  have hreverse : (n :: k :: names).reverse = (k :: names).reverse ++ [n] := List.reverse_cons
  simp only [Folded.toPath, hreverse, hlast, String.append_assoc]

/-- A normal form with names ends with its last name. -/
theorem Folded.exists_toList_toPath (absolute : Bool) (n : String) (names : List String) :
    ∃ a, (Folded.toPath ⟨absolute, n :: names⟩).text.toList = a ++ n.toList := by
  cases names with
  | nil => exact ⟨_, by rw [text_toPath_singleton, String.toList_append]⟩
  | cons k names => exact ⟨_, by rw [text_toPath_cons, String.toList_append]⟩

/-- A name behind a normal form is one name more. -/
theorem Folded.IsNormal.join_toPath {f : Folded} (hf : f.IsNormal) {n : String}
    (hn : IsFileName n) : f.toPath.join ⟨n⟩ = Folded.toPath ⟨f.absolute, n :: f.names⟩ := by
  obtain ⟨absolute, names⟩ := f
  rw [join, not_isAbsolute_of_isFileName hn, Bool.false_or]
  cases names with
  | nil => cases absolute <;> simp [Folded.toPath]
  | cons k names =>
    obtain ⟨a, ha⟩ := exists_toList_toPath absolute k names
    have hk : k.toList ≠ [] := by simpa using hf.ne_empty k List.mem_cons_self
    have hempty : (Folded.toPath ⟨absolute, k :: names⟩).text.isEmpty = false := by
      rw [Bool.eq_false_iff, ne_eq, String.isEmpty_iff, ← String.toList_inj, ha]
      simp [hk]
    have hlast : (Folded.toPath ⟨absolute, k :: names⟩).text.toList.getLast? ≠ some '/' := by
      rw [ha, List.getLast?_append_of_ne_nil a hk]
      exact fun h => hf.not_slash k List.mem_cons_self (List.mem_of_getLast? h)
    rw [hempty, if_neg (by simp), if_neg (by simpa using hlast), ← text_toPath_cons]

/-- The path that names lead to, as a normal form. -/
theorem Folded.IsNormal.below_toPath {f : Folded} (hf : f.IsNormal) {names : List String}
    (hnames : ∀ n ∈ names, IsFileName n) :
    (⟨f.absolute, names.reverse ++ f.names⟩ : Folded).IsNormal ∧
      f.toPath.below names = Folded.toPath ⟨f.absolute, names.reverse ++ f.names⟩ := by
  induction names generalizing f with
  | nil => exact ⟨hf, rfl⟩
  | cons n names ih =>
    have hn := hnames n List.mem_cons_self
    have hproper : (Component.name n).IsProper := hn
    have hpush : (⟨f.absolute, n :: f.names⟩ : Folded).IsNormal := hf.push hproper
    have hrest := ih hpush fun m hm => hnames m (List.mem_cons_of_mem n hm)
    rw [below_cons, hf.join_toPath hn]
    simpa using hrest

/-- What names lead to is read back as the names behind those of the path. -/
theorem fold_below_normalize {p : Path} {names : List String}
    (hnames : ∀ n ∈ names, IsFileName n) :
    (p.normalize.below names).fold = ⟨p.fold.absolute, names.reverse ++ p.fold.names⟩ := by
  obtain ⟨hnormal, heq⟩ := (isNormal_fold p).below_toPath hnames
  rw [normalize, heq, hnormal.fold_toPath]

/-- What names behind a normal form lead to is a normal form. -/
theorem normalize_below_normalize {p : Path} {names : List String}
    (hnames : ∀ n ∈ names, IsFileName n) :
    (p.normalize.below names).normalize = p.normalize.below names := by
  obtain ⟨hnormal, heq⟩ := (isNormal_fold p).below_toPath hnames
  rw [normalize, fold_below_normalize hnames]
  exact heq.symm

/-- Names behind normal forms lead to one place if they are read as one. -/
theorem below_normalize_inj {p q : Path} {ms ns : List String} (hms : ∀ n ∈ ms, IsFileName n)
    (hns : ∀ n ∈ ns, IsFileName n) :
    p.normalize.below ms = q.normalize.below ns ↔
      p.fold.absolute = q.fold.absolute ∧
        ms.reverse ++ p.fold.names = ns.reverse ++ q.fold.names := by
  rw [← normalize_below_normalize hms, ← normalize_below_normalize hns, normalize_eq_iff,
    fold_below_normalize hms, fold_below_normalize hns, Folded.mk.injEq]

theorem below_append (p : Path) (ms ns : List String) :
    p.below (ms ++ ns) = (p.below ms).below ns := List.foldl_append

/-! ## Paths within others -/

/-- In normal form, the path is another one or names behind it. -/
def IsWithin (p q : Path) : Prop :=
  ∃ names, (∀ n ∈ names, IsFileName n) ∧ p.normalize = q.normalize.below names

theorem isWithin_iff {p q : Path} :
    p.IsWithin q ↔ ∃ names : List String, (∀ n ∈ names, IsFileName n) ∧
      p.fold.absolute = q.fold.absolute ∧ p.fold.names = names.reverse ++ q.fold.names := by
  refine exists_congr fun names => and_congr_right fun hnames => ?_
  exact @below_normalize_inj p q [] names (by simp) hnames

/-- **What lies within what lies below a path:** the path does so itself, or the other path is
met on the way down. -/
theorem below_isWithin_iff {p q : Path} {names : List String}
    (hnames : ∀ n ∈ names, IsFileName n) :
    (p.normalize.below names).IsWithin q ↔
      p.IsWithin q ∨ ∃ way, way <+: names ∧ p.normalize.below way = q.normalize := by
  constructor
  · rintro ⟨more, hmore, heq⟩
    rw [normalize_below_normalize hnames, below_normalize_inj hnames hmore,
      List.append_eq_append_iff] at heq
    obtain ⟨habs, ⟨ns, hns, hfold⟩ | ⟨ns, hns, hfold⟩⟩ := heq
    · refine Or.inl (isWithin_iff.2 ⟨ns.reverse, fun n hn => hmore n ?_, habs, ?_⟩)
      · rw [← List.mem_reverse, hns]
        simpa using Or.inr hn
      · simpa using hfold
    · have hway : ns.reverse <+: names := ⟨more, by simpa using congrArg List.reverse hns.symm⟩
      refine Or.inr ⟨ns.reverse, hway, ?_⟩
      have hproper : ∀ n ∈ ns.reverse, IsFileName n := fun n hn => hnames n (hway.mem hn)
      rw [← below_nil q.normalize, below_normalize_inj hproper (by simp)]
      exact ⟨habs, by simpa using hfold.symm⟩
  · rintro (⟨more, hmore, heq⟩ | ⟨way, ⟨more, rfl⟩, heq⟩)
    · refine ⟨more ++ names, fun n hn => ?_, ?_⟩
      · exact (List.mem_append.1 hn).elim (hmore n) (hnames n)
      · rw [normalize_below_normalize hnames, heq, below_append]
    · refine ⟨more, fun n hn => hnames n (List.mem_append_right way hn), ?_⟩
      rw [normalize_below_normalize hnames, below_append, heq]

end GlyphTrim.Path
