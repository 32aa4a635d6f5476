import GlyphTrim.Proofs.Disk.Names
import GlyphTrim.Scan.Walk
import Mathlib.Data.List.Basic

/-!
# What one walk finds

A walk from a path goes to locations behind it (`Tree.Reaches`: there is a source file, and
nothing on the way is hidden), in the order of the names on the way, which is the lexicographic
order of the locations (`IsWalk`). `isWalk_sources` says so for the source files in a tree, and
`isWalk_walk` for an entry, where `Prunes` tells what is tested on the way: a link that is an entry
is not.
-/

namespace GlyphTrim

/-- There is a source file at a location, and no location on the way is hidden. -/
structure Tree.Reaches (t : Tree) (path : Path) (hidden : Location → Prop) (l : Location) :
    Prop where
  file : ∃ bytes, t.at? l = some (.file bytes)
  source : Scan.isSourcePath (path.below l) = true
  shown : ∀ m, m <+: l → ¬ hidden m

variable {es : List Entry} {t : Tree} {path dir : Path} {hidden : Location → Prop}
  {l : Location} {n : String}

theorem Tree.not_reaches_folder_nil : ¬ (Tree.folder es).Reaches path hidden [] := by
  rintro ⟨⟨bytes, hfile⟩, -, -⟩
  exact absurd hfile (by simp)

theorem Tree.not_reaches_link {target : Path} : ¬ (Tree.link target).Reaches path hidden l := by
  rintro ⟨⟨bytes, hfile⟩, -, -⟩
  cases l <;> simp [at?, child?] at hfile

theorem Tree.reaches_file_iff {bytes : ByteArray} :
    (Tree.file bytes).Reaches path hidden l ↔
      l = [] ∧ Scan.isSourcePath path = true ∧ ¬ hidden [] := by
  constructor
  · rintro ⟨⟨bytes', hfile⟩, hsource, hshown⟩
    cases l with
    | nil => exact ⟨rfl, hsource, hshown [] (List.prefix_refl [])⟩
    | cons n l => exact absurd hfile (by simp [at?, child?])
  · rintro ⟨rfl, hsource, hshown⟩
    refine ⟨⟨bytes, rfl⟩, hsource, fun m hm => ?_⟩
    rwa [List.prefix_nil.1 hm]

/-- Behind the name of an entry lies what is in the entry. -/
theorem Tree.reaches_folder_cons_iff (hes : (es.map Entry.name).Nodup) :
    (Tree.folder es).Reaches dir hidden (n :: l) ↔ ¬ hidden [] ∧
      ∃ t, .mk n t ∈ es ∧ t.Reaches (dir.join ⟨n⟩) (fun m => hidden (n :: m)) l := by
  constructor
  · rintro ⟨⟨bytes, hfile⟩, hsource, hshown⟩
    refine ⟨hshown [] List.nil_prefix, ?_⟩
    cases hfind : Entry.find? n es with
    | none => exact absurd hfile (by simp [at?, child?, hfind])
    | some t =>
      refine ⟨t, (Entry.find?_eq_some_iff hes).1 hfind, ⟨bytes, ?_⟩, hsource, ?_⟩
      · simpa [at?, child?, hfind] using hfile
      · exact fun m hm => hshown (n :: m) (List.cons_prefix_cons.2 ⟨rfl, hm⟩)
  · rintro ⟨hnil, t, hmem, ⟨bytes, hfile⟩, hsource, hshown⟩
    refine ⟨⟨bytes, ?_⟩, hsource, fun m hm => ?_⟩
    · simpa [at?, child?, (Entry.find?_eq_some_iff hes).2 hmem] using hfile
    · cases m with
      | nil => exact hnil
      | cons k m =>
        obtain ⟨rfl, hm'⟩ := List.cons_prefix_cons.1 hm
        exact hshown m hm'

namespace Scan

/-- The paths are those of the locations with a property behind a path, each once and in the
order of the locations. -/
def IsWalk (path : Path) (P : Location → Prop) (paths : List Path) : Prop :=
  ∃ ls : List Location, paths = ls.map path.below ∧ ls.Pairwise (· < ·) ∧ ∀ l, l ∈ ls ↔ P l

theorem IsWalk.mem_iff {P : Location → Prop} {paths : List Path} (h : IsWalk path P paths)
    {p : Path} : p ∈ paths ↔ ∃ l, P l ∧ p = path.below l := by
  obtain ⟨ls, rfl, -, hls⟩ := h
  simp only [List.mem_map, hls, eq_comm]

theorem IsWalk.congr {P Q : Location → Prop} {paths : List Path} (h : IsWalk path P paths)
    (hPQ : ∀ l, P l ↔ Q l) : IsWalk path Q paths := by
  obtain ⟨ls, hpaths, hls, hmem⟩ := h
  exact ⟨ls, hpaths, hls, fun l => (hmem l).trans (hPQ l)⟩

theorem isWalk_nil {P : Location → Prop} (h : ∀ l, ¬ P l) : IsWalk path P [] :=
  ⟨[], rfl, List.Pairwise.nil, fun l => by simpa using h l⟩

/-! ## A folder in the order of its names -/

/-- The paths behind a folder for the locations behind each of its names. -/
def namedPaths (dir : Path) (found : List (String × List Location)) : List (String × List Path) :=
  found.map fun f => (f.1, f.2.map (dir.join ⟨f.1⟩).below)

/-- The paths under the names of a folder are those of the files reached in its entries. -/
def AreWalks (dir : Path) (es : List Entry) (hidden : Location → Prop)
    (paths : List (String × List Path)) : Prop :=
  ∃ found, paths = namedPaths dir found ∧ found.map (·.1) = es.map Entry.name ∧
    (∀ f ∈ found, f.2.Pairwise (· < ·)) ∧
    ∀ n l, (∃ ls, (n, ls) ∈ found ∧ l ∈ ls) ↔
      ∃ t, .mk n t ∈ es ∧ t.Reaches (dir.join ⟨n⟩) (fun m => hidden (n :: m)) l

theorem AreWalks.congr {hidden' : Location → Prop} {paths : List (String × List Path)}
    (h : AreWalks dir es hidden paths) (hh : ∀ n m, hidden' (n :: m) ↔ hidden (n :: m)) :
    AreWalks dir es hidden' paths := by
  simpa only [AreWalks, hh] using h

/-- **Walks in the entries of a folder,** put in the order of the names, are a walk in the
folder. -/
theorem AreWalks.inOrder {paths : List (String × List Path)} (h : AreWalks dir es hidden paths)
    (hes : (es.map Entry.name).Nodup) (hnil : ¬ hidden []) :
    IsWalk dir ((Tree.folder es).Reaches dir hidden) (inOrder paths) := by
  obtain ⟨found, rfl, hnames, hwalks, hmem⟩ := h
  let sorted := found.mergeSort fun a b => decide (a.1 ≤ b.1)
  have hperm : sorted.Perm found := List.mergeSort_perm found _
  have hsorted : sorted.Pairwise fun a b => a.1 < b.1 := by
    have hle : sorted.Pairwise fun a b => decide (a.1 ≤ b.1) = true :=
      List.pairwise_mergeSort (by simpa using fun a b c => String.le_trans)
        (by simpa using fun a b => String.le_total a b) found
    have hne : sorted.Pairwise fun a b => a.1 ≠ b.1 :=
      List.pairwise_map.1 ((hperm.map Prod.fst).nodup_iff.2 (hnames ▸ hes))
    exact (hle.and hne).imp fun h => Std.lt_of_le_of_ne (of_decide_eq_true h.1) h.2
  have hpaths : namedPaths dir sorted =
      (namedPaths dir found).mergeSort fun a b => decide (a.1 ≤ b.1) :=
    List.map_mergeSort fun _ _ _ _ => rfl
  refine ⟨sorted.flatMap fun f => f.2.map (f.1 :: ·), ?_, ?_, ?_⟩
  · rw [Scan.inOrder, ← hpaths]
    simp [namedPaths, List.flatMap_map, List.map_flatMap, Function.comp_def]
  · refine List.pairwise_flatMap.2 ⟨fun f hf => ?_, hsorted.imp fun hlt l hl k hk => ?_⟩
    · exact List.pairwise_map.2 ((hwalks f (hperm.mem_iff.1 hf)).imp fun h =>
        List.cons_lt_cons_iff.2 (Or.inr ⟨rfl, h⟩))
    · obtain ⟨l, -, rfl⟩ := List.mem_map.1 hl
      obtain ⟨k, -, rfl⟩ := List.mem_map.1 hk
      exact List.cons_lt_cons_iff.2 (Or.inl hlt)
  · rintro (_ | ⟨n, l⟩)
    · simpa using Tree.not_reaches_folder_nil
    · rw [Tree.reaches_folder_cons_iff hes, and_iff_right hnil, ← hmem]
      simp [hperm.mem_iff]

/-! ## The source files in a tree -/

mutual

/-- **The source files in a tree** are those that nothing excluded hides, in the order of their
locations. -/
theorem isWalk_sources (excluded : Path → Bool) (path : Path) (t : Tree) (ht : t.WellNamed) :
    IsWalk path (t.Reaches path fun m => excluded (path.below m) = true)
      (sources excluded path t) := by
  match t with
  | .file bytes =>
    simp only [sources]
    split
    · rename_i h
      refine ⟨[[]], rfl, List.pairwise_singleton _ _, fun l => ?_⟩
      rw [Tree.reaches_file_iff]
      simpa using fun _ => h
    · rename_i h
      refine isWalk_nil fun l hl => h ?_
      simpa using (Tree.reaches_file_iff.1 hl).2
  | .link target => exact isWalk_nil fun l => Tree.not_reaches_link
  | .folder es =>
    rw [Tree.WellNamed] at ht
    simp only [sources]
    split
    · rename_i h
      exact isWalk_nil fun l hl => hl.shown [] List.nil_prefix h
    · rename_i h
      exact (areWalks_sourcesByName excluded path es ht.2).inOrder ht.1 h

/-- The source files in each entry of a folder. -/
theorem areWalks_sourcesByName (excluded : Path → Bool) (dir : Path) (es : List Entry)
    (hes : Entry.AllWellNamed es) :
    AreWalks dir es (fun m => excluded (dir.below m) = true) (sourcesByName excluded dir es) := by
  match es with
  | [] => exact ⟨[], rfl, rfl, by simp, by simp⟩
  | .mk name t :: rest =>
    obtain ⟨-, ht, hrest⟩ := hes
    obtain ⟨ls, hls, hlt, hmem⟩ := isWalk_sources excluded (dir.join ⟨name⟩) t ht
    obtain ⟨found, hfound, hnames, hwalks, hmems⟩ := areWalks_sourcesByName excluded dir rest hrest
    refine ⟨(name, ls) :: found, ?_, ?_, ?_, fun n l => ?_⟩
    · simp [sourcesByName, hls, hfound, namedPaths]
    · simp [hnames, Entry.name]
    · exact List.forall_mem_cons.2 ⟨hlt, hwalks⟩
    · constructor
      · rintro ⟨ks, hks, hl⟩
        rcases List.mem_cons.1 hks with heq | hks
        · obtain ⟨rfl, rfl⟩ := Prod.mk.inj heq
          exact ⟨t, List.mem_cons_self, (hmem l).1 hl⟩
        · obtain ⟨u, hu, hreach⟩ := (hmems n l).1 ⟨ks, hks, hl⟩
          exact ⟨u, List.mem_cons_of_mem _ hu, hreach⟩
      · rintro ⟨u, hu, hreach⟩
        rcases List.mem_cons.1 hu with heq | hu
        · obtain ⟨rfl, rfl⟩ := Entry.mk.inj heq
          exact ⟨ls, List.mem_cons_self, (hmem l).2 hreach⟩
        · obtain ⟨ks, hks, hl⟩ := (hmems n l).2 ⟨u, hu, hreach⟩
          exact ⟨ks, List.mem_cons_of_mem _ hks, hl⟩

end

/-! ## The walk from an entry -/

/-- What a walk from a path goes through: the tree there, or the folder that a link there leads
to. -/
def entryTree? (d : Disk) (path : Path) : Option Tree :=
  match d.find false path with
  | .error _ => none
  | .ok (.link _) =>
    match d.find true path with
    | .ok (.folder es) => some (.folder es)
    | _ => none
  | .ok t => some t

/-- There is a link at the path. -/
def IsLink (d : Disk) (path : Path) : Prop := ∃ target, d.find false path = .ok (.link target)

/-- From an entry a source file is reached at a location, without hidden locations on the way. -/
def Reaches (d : Disk) (hidden : Location → Prop) (entry : Path) (l : Location) : Prop :=
  ∃ t, entryTree? d entry.normalize = some t ∧ t.Reaches entry.normalize hidden l

/-- In normal form, the location behind an entry is at an excluded path. -/
def Excludes (excluded : List Path) (entry : Path) (l : Location) : Prop :=
  entry.normalize.below l ∈ excluded.map Path.normalize

/-- The location behind an entry ends the walk: it is at an excluded path, and it is not the entry
itself where the entry is a link. -/
def Prunes (d : Disk) (excluded : List Path) (entry : Path) (l : Location) : Prop :=
  Excludes excluded entry l ∧ ¬ (l = [] ∧ IsLink d entry.normalize)

/-- The source files that the walk from an entry finds. -/
def walk (d : Disk) (excluded : List Path) (entry : Path) : List Path :=
  match entrySources d (fun p => (excluded.map Path.normalize).contains p) entry.normalize with
  | .ok paths => paths
  | .error _ => []

theorem wellNamed_of_entryTree? {d : Disk} (hd : d.root.WellNamed)
    (h : entryTree? d path = some t) : t.WellNamed := by
  unfold entryTree? at h
  split at h
  · exact absurd h (by simp)
  · split at h
    · rename_i hlast
      exact Option.some.inj h ▸ Disk.wellNamed_of_find hd hlast
    · exact absurd h (by simp)
  · rename_i hfind
    exact Option.some.inj h ▸ Disk.wellNamed_of_find hd hfind

theorem reaches_iff {d : Disk} {entry : Path} (h : entryTree? d entry.normalize = some t) :
    Reaches d hidden entry l ↔ t.Reaches entry.normalize hidden l := by
  simp [Reaches, h]

theorem prunes_iff_excludes {d : Disk} {excluded : List Path} {entry : Path}
    (h : l = [] → ¬ IsLink d entry.normalize) :
    Prunes d excluded entry l ↔ Excludes excluded entry l :=
  and_iff_left fun ⟨hnil, hlink⟩ => h hnil hlink

/-- Where there is no link, the walk tests what is at the entry like all the rest. -/
theorem isWalk_sources_normalize {d : Disk} (hd : d.root.WellNamed) (excluded : List Path)
    {entry : Path} (htree : entryTree? d entry.normalize = some t)
    (hlink : ¬ IsLink d entry.normalize) :
    IsWalk entry.normalize (Reaches d (Prunes d excluded entry) entry)
      (sources (fun p => (excluded.map Path.normalize).contains p) entry.normalize t) := by
  have ht := wellNamed_of_entryTree? hd htree
  refine (isWalk_sources _ _ t ht).congr fun l => ?_
  have hhidden : Prunes d excluded entry = fun m =>
      (excluded.map Path.normalize).contains (entry.normalize.below m) = true := by
    funext m
    rw [prunes_iff_excludes fun _ => hlink, Excludes, List.contains_iff_mem]
  rw [reaches_iff htree, hhidden]

/-- Where a link leads to a folder, the walk tests what is in the folder. -/
theorem isWalk_inOrder_normalize {d : Disk} (hd : d.root.WellNamed) (excluded : List Path)
    {entry : Path} (htree : entryTree? d entry.normalize = some (.folder es))
    (hlink : IsLink d entry.normalize) :
    IsWalk entry.normalize (Reaches d (Prunes d excluded entry) entry)
      (inOrder (sourcesByName (fun p => (excluded.map Path.normalize).contains p)
        entry.normalize es)) := by
  have hes := wellNamed_of_entryTree? hd htree
  rw [Tree.WellNamed] at hes
  have hwalks := areWalks_sourcesByName (fun p => (excluded.map Path.normalize).contains p)
    entry.normalize es hes.2
  have hhidden : AreWalks entry.normalize es (Prunes d excluded entry) _ := hwalks.congr fun n m =>
    by rw [prunes_iff_excludes (by simp), Excludes, List.contains_iff_mem]
  exact (hhidden.inOrder hes.1 fun h => h.2 ⟨rfl, hlink⟩).congr fun l => (reaches_iff htree).symm

/-- **The walk from an entry** finds the source files that are reached without pruned locations on
the way. -/
theorem isWalk_walk {d : Disk} (hd : d.root.WellNamed) (excluded : List Path) (entry : Path) :
    IsWalk entry.normalize (Reaches d (Prunes d excluded entry) entry)
      (walk d excluded entry) := by
  have hnone (htree : entryTree? d entry.normalize = none) :
      IsWalk entry.normalize (Reaches d (Prunes d excluded entry) entry) [] :=
    isWalk_nil fun l ⟨t, ht, _⟩ => by simp [htree] at ht
  unfold walk entrySources
  cases hfind : d.find false entry.normalize with
  | error e => exact hnone (by simp [entryTree?, hfind])
  | ok t =>
    cases t with
    | file bytes =>
      exact isWalk_sources_normalize hd excluded (by simp [entryTree?, hfind])
        (by simp [IsLink, hfind])
    | folder es =>
      exact isWalk_sources_normalize hd excluded (by simp [entryTree?, hfind])
        (by simp [IsLink, hfind])
    | link target =>
      cases hlast : d.find true entry.normalize with
      | error e => exact hnone (by simp [entryTree?, hfind, hlast])
      | ok u =>
        cases u with
        | file bytes => exact hnone (by simp [entryTree?, hfind, hlast])
        | link target' => exact hnone (by simp [entryTree?, hfind, hlast])
        | folder es =>
          exact isWalk_inOrder_normalize hd excluded (by simp [entryTree?, hfind, hlast])
            ⟨target, hfind⟩

end Scan

end GlyphTrim
