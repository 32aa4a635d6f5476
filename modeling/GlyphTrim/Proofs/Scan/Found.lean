import GlyphTrim.Proofs.Scan.Walk
import Mathlib.Data.List.Induction
import Mathlib.Data.List.Infix
import Mathlib.Data.List.Nodup

/-!
# What is found below entries

`Scan.findSources` puts the walks from its entries together, and each file stands where it was
first found (`files_findSources`). So a file is found if it is reached from an entry
(`mem_files_findSources_iff`). `findSources_walks` puts the whole behaviour together, and says
that one more exclusion takes away nothing but what lies within it.
-/

namespace GlyphTrim.Scan

/-! ## Files in the order of the walks -/

theorem eraseDups_concat (xs : List String) (x : String) :
    (xs ++ [x]).eraseDups = if x ∈ xs then xs.eraseDups else xs.eraseDups ++ [x] := by
  rw [List.eraseDups_append, List.cons_removeAll]
  by_cases hx : x ∈ xs <;> simp [hx, List.eraseDups_cons]

theorem nodup_eraseDups (xs : List String) : xs.eraseDups.Nodup := by
  induction xs using List.reverseRecOn with
  | nil => exact List.nodup_nil
  | append_singleton xs x ih =>
    rw [eraseDups_concat]
    split
    · exact ih
    · rename_i hx
      exact List.nodup_append_comm.2 (List.nodup_cons.2 ⟨mt List.mem_eraseDups.1 hx, ih⟩)

theorem Found.files_foldl_add {f : Found} {xs : List String} (h : f.files = xs.eraseDups)
    (paths : List Path) : (paths.foldl add f).files = (xs ++ paths.map Path.text).eraseDups := by
  induction paths generalizing f xs with
  | nil => simpa using h
  | cons p paths ih =>
    have hadd : (f.add p).files = (xs ++ [p.text]).eraseDups := by
      have hmem : f.files.contains p.text = true ↔ p.text ∈ xs := by
        rw [List.contains_iff_mem, h, List.mem_eraseDups]
      rw [eraseDups_concat, ← h, add, apply_ite Found.files]
      simp only [hmem]
    rw [List.foldl_cons, ih hadd, List.map_cons, List.append_assoc, List.singleton_append]

theorem Found.files_addEntry {d : Disk} {excluded : List Path} {f : Found} {xs : List String}
    (h : f.files = xs.eraseDups) (entry : Path) :
    (f.addEntry d (fun p => (excluded.map Path.normalize).contains p) entry.normalize).files =
      (xs ++ (walk d excluded entry).map Path.text).eraseDups := by
  rw [addEntry, walk]
  cases entrySources d (fun p => (excluded.map Path.normalize).contains p) entry.normalize with
  | error e => simpa only [List.map_nil, List.append_nil] using h
  | ok paths => exact files_foldl_add h paths

/-- **The files that are found** are those of the walks from the entries, in their order, each
where it stands first. -/
theorem files_findSources (d : Disk) (entries excluded : List Path) :
    (findSources d entries excluded).files =
      ((entries.flatMap (walk d excluded)).map Path.text).eraseDups := by
  have hfold {f : Found} {xs : List String} (h : f.files = xs.eraseDups) :
      ((entries.map Path.normalize).foldl
        (Found.addEntry d fun p => (excluded.map Path.normalize).contains p) f).files =
        (xs ++ (entries.flatMap (walk d excluded)).map Path.text).eraseDups := by
    induction entries generalizing f xs with
    | nil => simpa using h
    | cons e entries ih =>
      rw [List.map_cons, List.foldl_cons, ih (Found.files_addEntry h e), List.flatMap_cons,
        List.map_append, List.append_assoc]
  exact @hfold {} [] rfl

/-! ## All that is found is a source file -/

theorem mem_inOrder_iff {α : Type} {found : List (String × List α)} {a : α} :
    a ∈ inOrder found ↔ ∃ e ∈ found, a ∈ e.2 := by
  rw [inOrder, List.mem_flatMap]
  simp only [List.mem_mergeSort]

mutual

theorem isSourcePath_of_mem_sources {excluded : Path → Bool} {path p : Path} (t : Tree)
    (h : p ∈ sources excluded path t) : isSourcePath p = true := by
  match t with
  | .file bytes =>
    simp only [sources] at h
    split at h
    · rename_i hsource
      obtain rfl := List.mem_singleton.1 h
      exact (Bool.and_eq_true_iff.1 hsource).1
    · exact absurd h (by simp)
  | .link target => exact absurd h (by simp [sources])
  | .folder es =>
    simp only [sources] at h
    split at h
    · exact absurd h (by simp)
    · obtain ⟨e, he, hp⟩ := mem_inOrder_iff.1 h
      exact isSourcePath_of_mem_sourcesByName es he hp

theorem isSourcePath_of_mem_sourcesByName {excluded : Path → Bool} {dir p : Path}
    {e : String × List Path} (es : List Entry) (he : e ∈ sourcesByName excluded dir es)
    (hp : p ∈ e.2) : isSourcePath p = true := by
  match es with
  | [] => exact absurd he (by simp [sourcesByName])
  | .mk name t :: rest =>
    simp only [sourcesByName] at he
    rcases List.mem_cons.1 he with rfl | he
    · exact isSourcePath_of_mem_sources t hp
    · exact isSourcePath_of_mem_sourcesByName rest he hp

end

theorem isSourcePath_of_mem_walk {d : Disk} {excluded : List Path} {entry p : Path}
    (h : p ∈ walk d excluded entry) : isSourcePath p = true := by
  unfold walk entrySources at h
  split at h
  · rename_i paths hpaths
    split at hpaths
    · exact absurd hpaths (by simp)
    · split at hpaths
      · exact absurd hpaths (by simp)
      · obtain rfl := Except.ok.inj hpaths
        obtain ⟨e, he, hp⟩ := mem_inOrder_iff.1 h
        exact isSourcePath_of_mem_sourcesByName _ he hp
      · obtain rfl := Except.ok.inj hpaths
        exact absurd h (by simp)
    · obtain rfl := Except.ok.inj hpaths
      exact isSourcePath_of_mem_sources _ h
  · exact absurd h (by simp)

/-- Every file that is found has the extension of a source file. -/
theorem isSourcePath_of_mem_files {d : Disk} {entries excluded : List Path} {f : String}
    (h : f ∈ (findSources d entries excluded).files) : isSourcePath ⟨f⟩ = true := by
  rw [files_findSources, List.mem_eraseDups] at h
  obtain ⟨p, hp, rfl⟩ := List.mem_map.1 h
  obtain ⟨e, -, hp⟩ := List.mem_flatMap.1 hp
  exact isSourcePath_of_mem_walk hp

variable {d : Disk} {entries excluded : List Path} {f : String}

/-- **A file is found** if it is reached from an entry. -/
theorem mem_files_findSources_iff (hd : d.root.WellNamed) :
    f ∈ (findSources d entries excluded).files ↔
      ∃ e ∈ entries, ∃ l, Reaches d (Prunes d excluded e) e l ∧
        f = (e.normalize.below l).text := by
  rw [files_findSources, List.mem_eraseDups, List.map_flatMap]
  simp only [List.mem_flatMap, List.mem_map, (isWalk_walk hd excluded _).mem_iff]
  refine exists_congr fun e => and_congr_right fun _ => ⟨?_, ?_⟩
  · rintro ⟨p, ⟨l, hl, rfl⟩, rfl⟩
    exact ⟨l, hl, rfl⟩
  · rintro ⟨l, hl, rfl⟩
    exact ⟨_, ⟨l, hl, rfl⟩, rfl⟩

/-! ## Exclusions and what lies within them -/

/-- The names on the way to a file that is reached are names of files and folders. -/
theorem Reaches.isFileName (hd : d.root.WellNamed) {hidden : Location → Prop} {e : Path}
    {l : Location} (h : Reaches d hidden e l) : ∀ n ∈ l, Path.IsFileName n := by
  obtain ⟨t, ht, ⟨bytes, hfile⟩, -, -⟩ := h
  exact ((wellNamed_of_entryTree? hd ht).of_at? hfile).2

/-- **A file lies within an exclusion** only if the entry that it is reached from does. -/
theorem Reaches.isWithin_iff (hd : d.root.WellNamed) {e x : Path} {l : Location}
    (hx : x ∈ excluded) (h : Reaches d (Prunes d excluded e) e l) :
    (e.normalize.below l).IsWithin x ↔ e.IsWithin x := by
  rw [Path.below_isWithin_iff (h.isFileName hd), or_iff_left_iff_imp]
  rintro ⟨way, hway, heq⟩
  obtain ⟨t, -, -, -, hshown⟩ := h
  have hexcludes : Excludes excluded e way := List.mem_map.2 ⟨x, hx, heq.symm⟩
  -- The way is not pruned, so it leads to the entry itself.
  obtain ⟨rfl, -⟩ := not_not.1 fun hlink => hshown way hway ⟨hexcludes, hlink⟩
  exact ⟨[], by simp, heq⟩

/-- One more exclusion hides nothing outside of it. -/
theorem Reaches.cons {e x : Path} {l : Location} (hd : d.root.WellNamed)
    (h : Reaches d (Prunes d excluded e) e l) (hx : ¬ (e.normalize.below l).IsWithin x) :
    Reaches d (Prunes d (x :: excluded) e) e l := by
  have hnames := h.isFileName hd
  obtain ⟨t, ht, hfile, hsource, hshown⟩ := h
  refine ⟨t, ht, hfile, hsource, fun m hm hprunes => ?_⟩
  rcases List.mem_cons.1 hprunes.1 with heq | hmem
  · exact hx ((Path.below_isWithin_iff hnames).2 (Or.inr ⟨m, hm, heq⟩))
  · exact hshown m hm ⟨hmem, hprunes.2⟩

/-! ## The whole search -/

/-- **What is found below entries:** the walks from the entries one after the other, each file
where it stands first; so each file that is reached from an entry is found once. One more exclusion
takes away nothing outside of it. -/
theorem findSources_walks (hd : d.root.WellNamed) :
    (∃ walks : Path → List Path,
      (∀ e ∈ entries, IsWalk e.normalize (Reaches d (Prunes d excluded e) e) (walks e)) ∧
        (findSources d entries excluded).files =
          ((entries.flatMap walks).map Path.text).eraseDups) ∧
      (findSources d entries excluded).files.Nodup ∧
      (∀ f, f ∈ (findSources d entries excluded).files ↔
        ∃ e ∈ entries, ∃ l, Reaches d (Prunes d excluded e) e l ∧
          f = (e.normalize.below l).text) ∧
      ∀ x, ∀ f ∈ (findSources d entries excluded).files, ¬ (⟨f⟩ : Path).IsWithin x →
        f ∈ (findSources d entries (x :: excluded)).files := by
  refine ⟨⟨walk d excluded, fun e _ => isWalk_walk hd excluded e,
    files_findSources d entries excluded⟩, ?_, fun f => mem_files_findSources_iff hd, ?_⟩
  · rw [files_findSources]
    exact nodup_eraseDups _
  · intro x f hf hx
    obtain ⟨e, he, l, hl, rfl⟩ := (mem_files_findSources_iff hd).1 hf
    exact (mem_files_findSources_iff hd).2 ⟨e, he, l, hl.cons hd hx, rfl⟩

/-! ## A disk with a link -/

/-- A source file, an old one in a folder of its own, and a link to that folder. -/
def sampleDisk : Disk :=
  ⟨.folder [
    .mk "src" (.folder [
      .mk "App.jsx" (.file .empty),
      .mk "legacy" (.folder [.mk "Old.jsx" (.file .empty)])]),
    .mk "old" (.link ⟨"src/legacy"⟩)], []⟩

theorem wellNamed_sampleDisk : sampleDisk.root.WellNamed := by
  have hnames : ∀ n ∈ ["src", "App.jsx", "legacy", "Old.jsx", "old"], Path.IsFileName n := by
    decide
  simpa [sampleDisk, Tree.WellNamed, Entry.AllWellNamed, Entry.name, and_assoc] using hnames

theorem entryTree?_sampleDisk :
    entryTree? sampleDisk ⟨"src"⟩ = some (.folder [.mk "App.jsx" (.file .empty),
      .mk "legacy" (.folder [.mk "Old.jsx" (.file .empty)])]) ∧
    entryTree? sampleDisk ⟨"src/legacy"⟩ = some (.folder [.mk "Old.jsx" (.file .empty)]) ∧
    entryTree? sampleDisk ⟨"old"⟩ = some (.folder [.mk "Old.jsx" (.file .empty)]) := by
  exact ⟨rfl, rfl, rfl⟩

theorem isLink_sampleDisk : IsLink sampleDisk ⟨"old"⟩ := ⟨⟨"src/legacy"⟩, rfl⟩

/-- What is kept in the folder around is found without the old file. -/
theorem findSources_walks_sampleDisk :
    sampleDisk.root.WellNamed ∧
      "src/App.jsx" ∈ (findSources sampleDisk [⟨"src"⟩] [⟨"src/legacy"⟩]).files := by
  have hd := wellNamed_sampleDisk
  obtain ⟨-, -, hmem, -⟩ := @findSources_walks _ [⟨"src"⟩] [⟨"src/legacy"⟩] hd
  have hsrc : Path.normalize ⟨"src"⟩ = ⟨"src"⟩ := by decide
  refine ⟨hd, (hmem _).2 ⟨⟨"src"⟩, by simp, ["App.jsx"], ?_, by decide⟩⟩
  rw [reaches_iff (hsrc ▸ entryTree?_sampleDisk.1)]
  refine ⟨⟨.empty, rfl⟩, by decide, fun m hm hprunes => ?_⟩
  have hway : ∀ m ∈ ["App.jsx"].inits,
      (⟨"src"⟩ : Path).normalize.below m ∉ [(⟨"src/legacy"⟩ : Path)].map Path.normalize := by
    decide
  exact hway m ((List.mem_inits m _).2 hm) hprunes.1

/-- A link that is excluded itself is gone through. -/
theorem not_forall_mem_files_iff_excludes :
    ¬ ∀ (d : Disk) (entries excluded : List Path), d.root.WellNamed → ∀ f,
      f ∈ (findSources d entries excluded).files ↔
        ∃ e ∈ entries, ∃ l, Reaches d (Excludes excluded e) e l ∧
          f = (e.normalize.below l).text := by
  intro h
  have hold : Path.normalize ⟨"old"⟩ = ⟨"old"⟩ := by decide
  have hfound : "old/Old.jsx" ∈ (findSources sampleDisk [⟨"old"⟩] [⟨"old"⟩]).files := by
    refine (mem_files_findSources_iff wellNamed_sampleDisk).2
      ⟨⟨"old"⟩, by simp, ["Old.jsx"], ?_, by decide⟩
    rw [reaches_iff (hold ▸ entryTree?_sampleDisk.2.2)]
    refine ⟨⟨.empty, rfl⟩, by decide, fun m hm ⟨hexcludes, hlink⟩ => ?_⟩
    have hway : ∀ m ∈ ["Old.jsx"].inits, m ≠ [] →
        (⟨"old"⟩ : Path).normalize.below m ∉ [(⟨"old"⟩ : Path)].map Path.normalize := by
      decide
    exact hway m ((List.mem_inits m _).2 hm) (fun hnil => hlink ⟨hnil, hold ▸ isLink_sampleDisk⟩)
      hexcludes
  obtain ⟨e, he, l, ⟨t, -, -, -, hshown⟩, -⟩ := (h _ _ _ wellNamed_sampleDisk _).1 hfound
  obtain rfl := List.mem_singleton.1 he
  exact hshown [] List.nil_prefix (by simp [Excludes])

end GlyphTrim.Scan
