import GlyphTrim.Proofs.Scan.Exclusion
import Mathlib.Data.List.Perm.Basic

/-!
# Reports put together

Each file that is listed has one of two roles. It contributes its classes and gaps (`usage?`), or it
is left out for a reason (`skipReason?`). Which of the two it is, and with what, is told by its own
text alone, so the report on a list is the reports on its parts put together (`ofFiles_append`), and
a file that fails touches nothing but the list of the files left out. `ofFiles_eq_merge` puts the
whole behaviour together.
-/

namespace GlyphTrim.ScanReport

/-! ## The two roles of a file -/

/-- What a file contributes, if it can be read and is a module. -/
def usage? (d : Disk) (file : String) : Option FileUsage :=
  match d.readText ⟨file⟩ with
  | .ok code => (FileUsage.ofText file code).toOption
  | .error _ => none

/-- Why a file is left out, if it cannot be read or is no module. -/
def skipReason? (d : Disk) (file : String) : Option SkipReason :=
  match d.readText ⟨file⟩ with
  | .error e => some (.unreadable e.message)
  | .ok code =>
    match FileUsage.ofText file code with
    | .error e => some (.parse e)
    | .ok _ => none

/-- The entry of a file in the list of those left out, if it is left out. -/
def skipped? (d : Disk) (file : String) : Option SkippedFile :=
  (skipReason? d file).map (SkippedFile.mk file)

/-- **Each file has one role.** -/
theorem ofFile_cases (d : Disk) (file : String) :
    (∃ usage, ofFile d file = .ok usage ∧ usage? d file = some usage ∧
      skipReason? d file = none) ∨
    ∃ reason, ofFile d file = .error reason ∧ usage? d file = none ∧
      skipReason? d file = some reason := by
  unfold ofFile usage? skipReason?
  cases d.readText ⟨file⟩ with
  | error e => exact .inr ⟨_, rfl, rfl, rfl⟩
  | ok code =>
    dsimp only
    cases FileUsage.ofText file code with
    | error e => exact .inr ⟨_, rfl, rfl, rfl⟩
    | ok usage => exact .inl ⟨_, rfl, rfl, rfl⟩

theorem ofFile_eq_ok_iff {d : Disk} {file : String} {usage : FileUsage} :
    ofFile d file = .ok usage ↔ usage? d file = some usage := by
  rcases ofFile_cases d file with ⟨u, hfile, husage, -⟩ | ⟨reason, hfile, husage, -⟩ <;>
    simp [hfile, husage]

/-! ## Reports in a row -/

/-- What two reports say, one behind the other. -/
def merge (r s : ScanReport) : ScanReport where
  files := r.files ++ s.files
  used := r.used.union s.used
  gaps := r.gaps ++ s.gaps
  skipped := r.skipped ++ s.skipped
  walkWarnings := r.walkWarnings ++ s.walkWarnings

theorem merge_assoc (r s t : ScanReport) : (r.merge s).merge t = r.merge (s.merge t) := by
  simp only [merge, List.append_assoc, NameSet.union_assoc]

theorem merge_empty (r : ScanReport) : r.merge {} = r := by
  simp only [merge, List.append_nil]
  rfl

/-- One file more is a report of its own behind the others. -/
theorem add_eq_merge (r : ScanReport) (file : String) (found : Except SkipReason FileUsage) :
    r.add file found = r.merge (add {} file found) := by
  cases found with
  | ok usage =>
    simp only [add, merge, NameSet.empty_union, List.append_nil, List.nil_append]
  | error reason =>
    simp only [add, merge, List.append_nil, List.nil_append]
    rfl

theorem foldl_add (d : Disk) (files : List String) (r : ScanReport) :
    files.foldl (fun r file => r.add file (ofFile d file)) r = r.merge (ofFiles d files) := by
  induction files generalizing r with
  | nil => exact (merge_empty r).symm
  | cons file files ih =>
    have hcons : ofFiles d (file :: files) = (add {} file (ofFile d file)).merge (ofFiles d files) :=
      ih _
    rw [List.foldl_cons, ih, add_eq_merge, merge_assoc, hcons]

/-- **The report on a list put together** is the reports on its parts put together. -/
theorem ofFiles_append (d : Disk) (xs ys : List String) :
    ofFiles d (xs ++ ys) = (ofFiles d xs).merge (ofFiles d ys) := by
  rw [ofFiles, List.foldl_append, foldl_add, ← ofFiles]

theorem ofFiles_cons (d : Disk) (file : String) (files : List String) :
    ofFiles d (file :: files) = (ofFiles d [file]).merge (ofFiles d files) :=
  ofFiles_append d [file] files

/-! ## What a report says -/

variable {d : Disk} {file : String} {files : List String}

/-- A file that is left out is all that the report on it names. -/
theorem ofFiles_singleton_of_skipReason? {reason : SkipReason}
    (h : skipReason? d file = some reason) :
    ofFiles d [file] = { skipped := [⟨file, reason⟩] } := by
  rcases ofFile_cases d file with ⟨usage, -, -, hnone⟩ | ⟨reason', hfile, -, hsome⟩
  · exact absurd (hnone.symm.trans h) (Option.some_ne_none _).symm
  · obtain rfl := Option.some.inj (hsome.symm.trans h)
    rw [ofFiles, List.foldl_cons, hfile]
    rfl

/-- A file that is read is not left out, and all its gaps count. -/
theorem ofFiles_singleton_of_usage? {usage : FileUsage} (h : usage? d file = some usage) :
    ofFiles d [file] = { used := usage.classes, gaps := usage.gaps } := by
  rw [ofFiles, List.foldl_cons, ofFile_eq_ok_iff.2 h, List.foldl_nil, add]
  simp only [NameSet.empty_union, List.nil_append]

/-- The two roles, with the report on the file alone. -/
theorem singleton_cases (d : Disk) (file : String) :
    (∃ usage, usage? d file = some usage ∧ skipReason? d file = none ∧
      ofFiles d [file] = { used := usage.classes, gaps := usage.gaps }) ∨
    ∃ reason, usage? d file = none ∧ skipReason? d file = some reason ∧
      ofFiles d [file] = { skipped := [⟨file, reason⟩] } := by
  rcases ofFile_cases d file with ⟨usage, -, husage, hnone⟩ | ⟨reason, -, hnone, hreason⟩
  · exact .inl ⟨usage, husage, hnone, ofFiles_singleton_of_usage? husage⟩
  · exact .inr ⟨reason, hnone, hreason, ofFiles_singleton_of_skipReason? hreason⟩

/-- **The files left out** stand in the order of the list, each for its own reason. -/
theorem skipped_ofFiles (d : Disk) (files : List String) :
    (ofFiles d files).skipped = files.filterMap (skipped? d) := by
  induction files with
  | nil => rfl
  | cons file files ih =>
    rw [ofFiles_cons, merge, ih, List.filterMap_cons, skipped?]
    rcases singleton_cases d file with ⟨usage, -, hnone, hreport⟩ | ⟨reason, -, hsome, hreport⟩
    · rw [hreport, hnone]
      rfl
    · rw [hreport, hsome]
      rfl

/-- **The gaps** are those of the files that are read, in the order of the list. -/
theorem gaps_ofFiles (d : Disk) (files : List String) :
    (ofFiles d files).gaps = (files.filterMap (usage? d)).flatMap (·.gaps) := by
  induction files with
  | nil => rfl
  | cons file files ih =>
    rw [ofFiles_cons, merge, ih, List.filterMap_cons]
    rcases singleton_cases d file with ⟨usage, husage, -, hreport⟩ | ⟨reason, hnone, -, hreport⟩
    · rw [hreport, husage, List.flatMap_cons]
    · rw [hreport, hnone]
      rfl

/-- The walk has no part in the report on files. -/
theorem walk_ofFiles (d : Disk) (files : List String) :
    (ofFiles d files).files = [] ∧ (ofFiles d files).walkWarnings = [] := by
  induction files with
  | nil => exact ⟨rfl, rfl⟩
  | cons file files ih =>
    rw [ofFiles_cons, merge, ih.1, ih.2]
    rcases singleton_cases d file with ⟨usage, -, -, hreport⟩ | ⟨reason, -, -, hreport⟩ <;>
      rw [hreport] <;> exact ⟨rfl, rfl⟩

/-- The classes in use depend only on which files are listed. -/
theorem used_ofFiles_of_mem_iff {files' : List String} (h : ∀ f, f ∈ files ↔ f ∈ files') :
    (ofFiles d files).used = (ofFiles d files').used :=
  NameSet.ext_contains fun n => by simp only [contains_used_ofFiles, h]

/-- A file is left out as often as it is listed, or not at all. -/
theorem count_skipped (d : Disk) (files : List String) (file : String) :
    ((ofFiles d files).skipped.map (·.file)).count file =
      if (skipReason? d file).isSome then files.count file else 0 := by
  have hname : ∀ f, (skipped? d f).map (·.file) = if (skipReason? d f).isSome then some f else none := by
    intro f
    rw [skipped?, Option.map_map]
    cases skipReason? d f <;> rfl
  have hnames : (ofFiles d files).skipped.map (·.file) =
      files.filter fun f => (skipReason? d f).isSome := by
    rw [skipped_ofFiles, List.map_filterMap, ← List.filterMap_eq_filter]
    exact List.filterMap_congr fun f _ => (hname f).trans (by simp [Option.guard])
  rw [hnames]
  split
  · rename_i hsome
    exact List.count_filter (p := fun f => (skipReason? d f).isSome) hsome
  · rename_i hnone
    exact List.count_eq_zero_of_not_mem fun hmem => hnone (List.mem_filter.1 hmem).2

/-- **The report on files.** Each file contributes or is left out, and is left out as often as it is
listed, in order. The classes are those of the files that are read, and the gaps stand in the order
of the list. So reports on parts of a list can be put together, the order of the list does not
matter to the classes, and a file that fails matters to nothing but the files left out. -/
theorem ofFiles_eq_merge (d : Disk) (files : List String) :
    (∀ file, (∃ usage, usage? d file = some usage ∧ skipReason? d file = none) ∨
      ∃ reason, usage? d file = none ∧ skipReason? d file = some reason) ∧
    ((ofFiles d files).skipped = files.filterMap (skipped? d) ∧
      ∀ file, ((ofFiles d files).skipped.map (·.file)).count file =
        if (skipReason? d file).isSome then files.count file else 0) ∧
    (∀ name, (ofFiles d files).used.contains name = true ↔
      ∃ file ∈ files, ∃ usage, usage? d file = some usage ∧
        usage.classes.contains name = true) ∧
    (ofFiles d files).gaps = (files.filterMap (usage? d)).flatMap (·.gaps) ∧
    (∀ xs ys, files = xs ++ ys → ofFiles d files = (ofFiles d xs).merge (ofFiles d ys)) ∧
    (∀ files', files.Perm files' → (ofFiles d files').used = (ofFiles d files).used) ∧
    ∀ xs ys, files = xs ++ ys → ∀ file reason, skipReason? d file = some reason →
      ofFiles d (xs ++ file :: ys) = { ofFiles d files with
        skipped := (ofFiles d xs).skipped ++ ⟨file, reason⟩ :: (ofFiles d ys).skipped } := by
  refine ⟨fun file => ?_, ⟨skipped_ofFiles d files, count_skipped d files⟩, fun name => ?_,
    gaps_ofFiles d files, ?_, fun files' hperm => ?_, ?_⟩
  · rcases singleton_cases d file with ⟨usage, husage, hnone, -⟩ | ⟨reason, hnone, hreason, -⟩
    · exact .inl ⟨usage, husage, hnone⟩
    · exact .inr ⟨reason, hnone, hreason⟩
  · simp only [contains_used_ofFiles, Uses, ofFile_eq_ok_iff]
  · rintro xs ys rfl
    exact ofFiles_append d xs ys
  · exact used_ofFiles_of_mem_iff fun f => hperm.mem_iff.symm
  · rintro xs ys rfl file reason hreason
    rw [ofFiles_append, ofFiles_cons, ofFiles_singleton_of_skipReason? hreason, ofFiles_append]
    simp only [merge, NameSet.empty_union, List.nil_append, List.singleton_append]

/-- A missing file between two others is named, and nothing else is lost. -/
theorem ofFiles_eq_merge_sampleDisk :
    skipReason? Scan.sampleDisk "src/Gone.jsx" =
        some (.unreadable "No such file or directory (os error 2)") ∧
      ofFiles Scan.sampleDisk ["src/App.jsx", "src/Gone.jsx", "src/legacy/Old.jsx"] =
        { ofFiles Scan.sampleDisk ["src/App.jsx", "src/legacy/Old.jsx"] with
          skipped := [⟨"src/Gone.jsx", .unreadable "No such file or directory (os error 2)"⟩] } ∧
      (ofFiles Scan.sampleDisk ["src/legacy/Old.jsx", "src/App.jsx"]).used =
        (ofFiles Scan.sampleDisk ["src/App.jsx", "src/legacy/Old.jsx"]).used := by
  have hgone : skipReason? Scan.sampleDisk "src/Gone.jsx" =
      some (.unreadable "No such file or directory (os error 2)") := by
    decide +kernel
  have hread : (ofFiles Scan.sampleDisk ["src/App.jsx"]).skipped = [] ∧
      (ofFiles Scan.sampleDisk ["src/legacy/Old.jsx"]).skipped = [] := by
    decide +kernel
  obtain ⟨-, -, -, -, -, hperm, hinsert⟩ :=
    ofFiles_eq_merge Scan.sampleDisk ["src/App.jsx", "src/legacy/Old.jsx"]
  refine ⟨hgone, ?_, hperm _ (List.Perm.swap _ _ _)⟩
  rw [← List.singleton_append, hinsert _ _ rfl _ _ hgone, hread.1, hread.2, List.nil_append]

end GlyphTrim.ScanReport
