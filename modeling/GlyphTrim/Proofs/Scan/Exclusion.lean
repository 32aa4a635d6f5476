import GlyphTrim.Proofs.Name.Map
import GlyphTrim.Proofs.Scan.Found
import GlyphTrim.Scan.Report

/-!
# Excluded files

`exists_file_isWithin_iff` says when a file within an excluded path is found: only from an entry
that lies there itself. A class in use is used in a file that was found
(`ScanReport.contains_used_ofFiles`), so where no entry lies within an excluded path, no class comes
from there.
-/

namespace GlyphTrim

/-! ## Where classes come from -/

namespace ScanReport

/-- A file that can be read uses a class. -/
def Uses (d : Disk) (file name : String) : Prop :=
  ∃ usage, ofFile d file = .ok usage ∧ usage.classes.contains name = true

theorem contains_used_add (r : ScanReport) (file : String) (found : Except SkipReason FileUsage)
    (name : String) : (r.add file found).used.contains name = true ↔
      r.used.contains name = true ∨
        ∃ usage, found = .ok usage ∧ usage.classes.contains name = true := by
  cases found with
  | ok usage => simp [add, NameSet.contains_union]
  | error reason => simp [add]

/-- **The classes in use** are those of the files. -/
theorem contains_used_ofFiles (d : Disk) (files : List String) (name : String) :
    (ofFiles d files).used.contains name = true ↔ ∃ file ∈ files, Uses d file name := by
  have hfold (r : ScanReport) :
      (files.foldl (fun r file => r.add file (ofFile d file)) r).used.contains name = true ↔
        r.used.contains name = true ∨ ∃ file ∈ files, Uses d file name := by
    induction files generalizing r with
    | nil => simp
    | cons file files ih =>
      rw [List.foldl_cons, ih, contains_used_add, List.exists_mem_cons_iff, or_assoc]
      rfl
  refine (hfold {}).trans (or_iff_right ?_)
  exact Bool.false_ne_true

end ScanReport

namespace Scan

variable {d : Disk} {entries excluded : List Path}

/-! ## Files within an excluded path -/

/-- **Files within an excluded path** are found only from entries that lie within it, and all that
is found from such an entry lies there. Where there is no such entry, each class that the files use
is used in a file outside of the excluded path. -/
theorem exists_file_isWithin_iff (hd : d.root.WellNamed) {x : Path} (hx : x ∈ excluded) :
    ((∃ f ∈ (findSources d entries excluded).files, (⟨f⟩ : Path).IsWithin x) ↔
      ∃ e ∈ entries, e.IsWithin x ∧ ∃ l, Reaches d (Prunes d excluded e) e l) ∧
    ((∀ e ∈ entries, ¬ e.IsWithin x) → ∀ name,
      (ScanReport.ofFiles d (findSources d entries excluded).files).used.contains name = true →
        ∃ f ∈ (findSources d entries excluded).files, ¬ (⟨f⟩ : Path).IsWithin x ∧
          ScanReport.Uses d f name) := by
  refine ⟨⟨?_, ?_⟩, fun hentries name hname => ?_⟩
  · rintro ⟨f, hf, hwithin⟩
    obtain ⟨e, he, l, hl, rfl⟩ := (mem_files_findSources_iff hd).1 hf
    exact ⟨e, he, (hl.isWithin_iff hd hx).1 hwithin, l, hl⟩
  · rintro ⟨e, he, hwithin, l, hl⟩
    exact ⟨_, (mem_files_findSources_iff hd).2 ⟨e, he, l, hl, rfl⟩,
      (hl.isWithin_iff hd hx).2 hwithin⟩
  · obtain ⟨f, hf, huses⟩ := (ScanReport.contains_used_ofFiles d _ name).1 hname
    refine ⟨f, hf, fun hwithin => ?_, huses⟩
    obtain ⟨e, he, l, hl, rfl⟩ := (mem_files_findSources_iff hd).1 hf
    exact hentries e he ((hl.isWithin_iff hd hx).1 hwithin)

theorem exists_file_isWithin_iff_sampleDisk :
    sampleDisk.root.WellNamed ∧ (⟨"src/legacy"⟩ : Path) ∈ [(⟨"src/legacy"⟩ : Path)] ∧
      ∀ f ∈ (findSources sampleDisk [⟨"src"⟩] [⟨"src/legacy"⟩]).files,
        ¬ (⟨f⟩ : Path).IsWithin ⟨"src/legacy"⟩ := by
  have hmem : (⟨"src/legacy"⟩ : Path) ∈ [(⟨"src/legacy"⟩ : Path)] := List.mem_singleton_self _
  refine ⟨wellNamed_sampleDisk, hmem, fun f hf hwithin => ?_⟩
  obtain ⟨e, he, hsrc, -⟩ :=
    (exists_file_isWithin_iff wellNamed_sampleDisk hmem).1.1 ⟨f, hf, hwithin⟩
  obtain rfl := List.mem_singleton.1 he
  obtain ⟨names, -, -, hnames⟩ := Path.isWithin_iff.1 hsrc
  have hfold : (⟨"src"⟩ : Path).fold.names.length = 1 ∧
      (⟨"src/legacy"⟩ : Path).fold.names.length = 2 := by decide
  have hlength := congrArg List.length hnames
  rw [List.length_append, hfold.1, hfold.2] at hlength
  omega

/-- From an entry in an excluded folder its files are found. -/
theorem not_forall_file_not_isWithin :
    ¬ ∀ (d : Disk) (entries excluded : List Path), d.root.WellNamed →
      ∀ f ∈ (findSources d entries excluded).files, ∀ x ∈ excluded,
        ¬ (⟨f⟩ : Path).IsWithin x := by
  intro h
  have hlegacy : Path.normalize ⟨"src/legacy"⟩ = ⟨"src/legacy"⟩ := by decide
  have hfound :
      "src/legacy/Old.jsx" ∈ (findSources sampleDisk [⟨"src/legacy"⟩] [⟨"src"⟩]).files := by
    refine (mem_files_findSources_iff wellNamed_sampleDisk).2
      ⟨⟨"src/legacy"⟩, by simp, ["Old.jsx"], ?_, by decide⟩
    rw [reaches_iff (hlegacy ▸ entryTree?_sampleDisk.2.1)]
    refine ⟨⟨.empty, rfl⟩, by decide, fun m hm hprunes => ?_⟩
    have hway : ∀ m ∈ ["Old.jsx"].inits,
        (⟨"src/legacy"⟩ : Path).normalize.below m ∉ [(⟨"src"⟩ : Path)].map Path.normalize := by
      decide
    exact hway m ((List.mem_inits m _).2 hm) hprunes.1
  exact h _ _ _ wellNamed_sampleDisk _ hfound ⟨"src"⟩ (List.mem_singleton_self _)
    ⟨["legacy", "Old.jsx"], by decide, by decide⟩

end Scan

end GlyphTrim
