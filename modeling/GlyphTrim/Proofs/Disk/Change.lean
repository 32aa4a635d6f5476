import GlyphTrim.Proofs.Disk.Following

/-!
# What operations change

Each operation on a disk is described by what it changes location by location. Writing a file
changes one location, where there was a file or nothing (`Disk.write_cases`), and what was written
is read back (`Disk.read_write`). Making folders turns nothing into folders and changes nothing
else, also when it fails in the end (`Disk.addsFolders_makeFolders`).
-/

namespace GlyphTrim.Disk

variable {d d' : Disk} {p : Path} {l : Location}

/-! ## Reading -/

/-- A file is read where its path leads. -/
theorem read_eq_ok_iff {bytes : ByteArray} : d.read p = .ok bytes ↔
    asksFolder p = false ∧ ∃ l, d.locate true p = .ok l ∧ d.root.thing? l = some (.file bytes) := by
  simp only [Tree.thing?_eq_file_iff]
  rw [read, find, Bool.true_or]
  cases hl : d.locate true p with
  | error e => simp
  | ok l =>
    cases ht : d.root.at? l with
    | none => simp [ht]
    | some t =>
      cases hslash : asksFolder p <;> cases t <;> simp [ht, Tree.isFolder]

theorem hasFolder_iff : d.hasFolder p = true ↔
    ∃ l, d.locate true p = .ok l ∧ d.root.thing? l = some .folder := by
  simp only [Tree.thing?_eq_folder_iff]
  rw [hasFolder, find, Bool.true_or]
  cases hl : d.locate true p with
  | error e => simp
  | ok l =>
    cases ht : d.root.at? l with
    | none => simp [ht]
    | some t => cases hslash : asksFolder p <;> cases t <;> simp [ht, Tree.isFolder]

theorem hasFile_iff : d.hasFile p = true ↔ ∃ bytes, d.read p = .ok bytes := by
  rw [hasFile, read]
  cases h : d.find true p with
  | error e => simp
  | ok t => cases t <;> simp [Tree.isFile]

/-- A file that stays where it is is read as before. -/
theorem read_of_keepsWays {bytes : ByteArray} (hkeeps : d.root.KeepsWays d'.root)
    (hcurrent : d'.current = d.current)
    (hfile : ∀ l, d.root.thing? l = some (.file bytes) → d.locate true p = .ok l →
      d'.root.thing? l = some (.file bytes))
    (h : d.read p = .ok bytes) : d'.read p = .ok bytes := by
  obtain ⟨hslash, l, hl, hbytes⟩ := read_eq_ok_iff.1 h
  exact read_eq_ok_iff.2 ⟨hslash, l, locate_of_keepsWays hkeeps hcurrent hl, hfile l hbytes hl⟩

/-! ## Writing a file -/

/-- **A file is written** at one location, where a file stood or nothing, or nothing is changed. -/
theorem write_cases (d : Disk) (p : Path) (bytes : ByteArray) :
    (∃ e, d.write p bytes = (.error e, d)) ∨
      ∃ l, d.locate true p = .ok l ∧ asksFolder p = false ∧
        d.write p bytes = (.ok (), d.put l (.file bytes)) ∧
        (d.root.thing? l = none ∨ ∃ old, d.root.thing? l = some (.file old)) ∧
        ∀ m, (d.put l (.file bytes)).root.thing? m =
          if m = l then some (.file bytes) else d.root.thing? m := by
  rw [write]
  split
  · rename_i e he
    exact .inl ⟨e, rfl⟩
  rename_i l hl
  split
  · exact .inl ⟨_, rfl⟩
  rename_i hslash
  have hslash' : asksFolder p = false := by simpa using hslash
  split
  · exact .inl ⟨_, rfl⟩
  rename_i hnot
  have hnot' : d.root.thing? l ≠ some .folder := by
    rw [ne_eq, Tree.thing?_eq_folder_iff]
    rintro ⟨entries, h⟩
    exact hnot entries h
  refine .inr ⟨l, hl, hslash', rfl, ?_⟩
  obtain ⟨hplace, hlink⟩ | ⟨-, hslash''⟩ := isIn_of_locate hl
  · obtain hfolder | ⟨parent, n, rfl, hparent⟩ := hplace
    · exact absurd hfolder hnot'
    · constructor
      · cases h : d.root.thing? (parent ++ [n]) with
        | none => exact .inl rfl
        | some t =>
          cases t with
          | file old => exact .inr ⟨old, rfl⟩
          | link target => exact absurd h (hlink rfl target)
          | folder => exact absurd h hnot'
      · exact Tree.thing?_put hparent hnot' fun _ => rfl
  · exact absurd hslash'' hslash

/-- The disk after a file was written has the folders and links that it had. -/
theorem keepsWays_of_file {t t' : Tree} {bytes : ByteArray}
    (hold : t.thing? l = none ∨ ∃ old, t.thing? l = some (.file old))
    (hnew : ∀ m, t'.thing? m = if m = l then some (.file bytes) else t.thing? m) :
    t.KeepsWays t' := by
  constructor
  · intro m hm
    rw [hnew, if_neg, hm]
    rintro rfl
    rcases hold with h | ⟨old, h⟩ <;> simp [h] at hm
  · intro m target
    rw [hnew]
    split
    · rename_i hml
      subst hml
      rcases hold with h | ⟨old, h⟩ <;> simp [h]
    · rfl

/-- **What was written is read back.** -/
theorem read_write {bytes : ByteArray} (h : (d.write p bytes).1 = .ok ()) :
    (d.write p bytes).2.read p = .ok bytes := by
  obtain ⟨e, he⟩ | ⟨l, hl, hslash, hwrite, hold, hnew⟩ := d.write_cases p bytes
  · rw [he] at h
    exact absurd h (by simp)
  · rw [hwrite]
    refine read_eq_ok_iff.2 ⟨hslash, l, ?_, by rw [hnew, if_pos rfl]⟩
    exact locate_of_keepsWays (keepsWays_of_file hold hnew) rfl hl

theorem write_eq_of_error {e : DiskFault} {bytes : ByteArray} (h : (d.write p bytes).1 = .error e) :
    (d.write p bytes).2 = d := by
  obtain ⟨e, he⟩ | ⟨l, -, -, hwrite, -, -⟩ := d.write_cases p bytes
  · rw [he]
  · rw [hwrite] at h
    exact absurd h (by simp)

/-! ## Making folders -/

/-- A disk with the same current folder on which nothing is changed but that there may be more
folders. -/
structure AddsFolders (d d' : Disk) : Prop where
  current : d'.current = d.current
  things : ∀ l, d'.root.thing? l = d.root.thing? l ∨
    d.root.thing? l = none ∧ d'.root.thing? l = some .folder

theorem AddsFolders.refl (d : Disk) : d.AddsFolders d := ⟨rfl, fun _ => .inl rfl⟩

theorem AddsFolders.trans {d'' : Disk} (h : d.AddsFolders d') (h' : d'.AddsFolders d'') :
    d.AddsFolders d'' := by
  refine ⟨h'.current.trans h.current, fun l => ?_⟩
  rcases h'.things l with heq | ⟨hnone, hfolder⟩
  · rw [heq]
    exact h.things l
  · rcases h.things l with heq | ⟨-, hthere⟩
    · exact .inr ⟨heq ▸ hnone, hfolder⟩
    · exact absurd hnone (by simp [hthere])

/-- Files and links are the same, and folders stay. -/
theorem AddsFolders.thing?_iff (h : d.AddsFolders d') {t : Thing} (ht : t ≠ .folder) :
    d'.root.thing? l = some t ↔ d.root.thing? l = some t := by
  rcases h.things l with heq | ⟨hnone, hfolder⟩
  · rw [heq]
  · simp [hnone, hfolder, ht.symm]

theorem AddsFolders.keepsWays (h : d.AddsFolders d') : d.root.KeepsWays d'.root := by
  refine ⟨fun l hl => ?_, fun l target => h.thing?_iff (by simp)⟩
  rcases h.things l with heq | ⟨hnone, -⟩
  · rw [heq, hl]
  · exact absurd hl (by simp [hnone])

/-- Every file is read as before. -/
theorem AddsFolders.read {bytes : ByteArray} (h : d.AddsFolders d') (hp : d.read p = .ok bytes) :
    d'.read p = .ok bytes :=
  read_of_keepsWays h.keepsWays h.current (fun _ hl _ => (h.thing?_iff (by simp)).2 hl) hp

theorem makeFolder_cases (d : Disk) (p : Path) :
    (∃ e, d.makeFolder p = (.error e, d)) ∨
      ∃ l, d.locate false p = .ok l ∧ d.makeFolder p = (.ok (), d.put l (.folder [])) ∧
        d.root.thing? l = none ∧
        ∀ m, (d.put l (.folder [])).root.thing? m =
          if m = l then some .folder else d.root.thing? m := by
  rw [makeFolder]
  split
  · exact .inl ⟨_, rfl⟩
  rename_i l hl
  split
  · exact .inl ⟨_, rfl⟩
  rename_i hnone
  have hnone' : d.root.thing? l = none := Tree.thing?_eq_none_iff.2 hnone
  refine .inr ⟨l, hl, rfl, hnone', ?_⟩
  obtain ⟨hfolder | ⟨parent, n, rfl, hparent⟩, -⟩ | ⟨rfl, -⟩ := isIn_of_locate hl
  · exact absurd hfolder (by simp [hnone'])
  · exact Tree.thing?_put hparent (by simp [hnone']) fun _ => rfl
  · exact absurd hnone (by simp)

theorem addsFolders_makeFolder (d : Disk) (p : Path) : d.AddsFolders (d.makeFolder p).2 := by
  obtain ⟨e, he⟩ | ⟨l, -, hmake, hnone, hnew⟩ := d.makeFolder_cases p
  · rw [he]
    exact .refl d
  · rw [hmake]
    refine ⟨rfl, fun m => ?_⟩
    rw [hnew]
    split
    · rename_i hml
      exact .inr ⟨hml ▸ hnone, rfl⟩
    · exact .inl rfl

/-- A folder that was made is there. -/
theorem hasFolder_makeFolder (h : (d.makeFolder p).1 = .ok ()) :
    (d.makeFolder p).2.hasFolder p = true := by
  have hadds := d.addsFolders_makeFolder p
  obtain ⟨e, he⟩ | ⟨l, hl, hmake, hnone, hnew⟩ := d.makeFolder_cases p
  · rw [he] at h
    exact absurd h (by simp)
  · rw [hmake] at hadds ⊢
    have hlast : d.locate true p = .ok l := locate_of_not_last hl (by simp [hnone])
    exact hasFolder_iff.2
      ⟨l, locate_of_keepsWays hadds.keepsWays rfl hlast, by rw [hnew, if_pos rfl]⟩

theorem addsFolders_settleFolder (d : Disk) (p : Path) : d.AddsFolders (d.settleFolder p).2 := by
  have hadds := d.addsFolders_makeFolder p
  rw [settleFolder]
  split
  · rename_i d' hmake
    simpa [hmake] using hadds
  · rename_i e d' hmake
    split <;> simpa [hmake] using hadds

theorem hasFolder_settleFolder (h : (d.settleFolder p).1 = .ok ()) :
    (d.settleFolder p).2.hasFolder p = true := by
  have hthere := @hasFolder_makeFolder d p
  rw [settleFolder] at h ⊢
  split at h
  · rename_i d' hmake
    simpa [hmake] using hthere
  · split at h
    · rename_i hfolder
      simp [hfolder]
    · exact absurd h (by simp)

theorem addsFolders_makeFoldersWithin (bound : Nat) (d : Disk) (p : Path) :
    d.AddsFolders (makeFoldersWithin bound d p).2 := by
  induction bound generalizing d p with
  | zero => exact .refl d
  | succ bound ih =>
    have hadds := d.addsFolders_makeFolder p
    rw [makeFoldersWithin]
    split
    · exact .refl d
    split
    · rename_i d' hmake
      simpa [hmake] using hadds
    · rename_i d' hmake
      rw [hmake] at hadds
      split
      · exact hadds
      · rename_i parent hparent
        have haround := ih d' parent
        split
        · rename_i e d'' hfailed
          rw [hfailed] at haround
          exact hadds.trans haround
        · rename_i d'' hmade
          rw [hmade] at haround
          exact (hadds.trans haround).trans (d''.addsFolders_settleFolder p)
    · rename_i e d' _ hmake
      split <;> simpa [hmake] using hadds

/-- **Making folders** changes nothing else, also when it fails. -/
theorem addsFolders_makeFolders (d : Disk) (p : Path) : d.AddsFolders (d.makeFolders p).2 :=
  addsFolders_makeFoldersWithin _ d p

/-- The folder is there in the end. -/
theorem hasFolder_makeFolders (hp : p.text ≠ "") (h : (d.makeFolders p).1 = .ok ()) :
    (d.makeFolders p).2.hasFolder p = true := by
  have hthere := @hasFolder_makeFolder d p
  rw [makeFolders, makeFoldersWithin] at h ⊢
  rw [if_neg (by simpa using hp)] at h ⊢
  split at h
  · rename_i d' hmake
    simpa [hmake] using hthere
  · split at h
    · exact absurd h (by simp)
    · split at h
      · exact absurd h (by simp)
      · exact hasFolder_settleFolder h
  · split at h
    · rename_i hfolder
      simp [hfolder]
    · exact absurd h (by simp)

/-! ## Changes at some places only -/

/-- A disk that is made of another one by changing files at some locations. Folders may be made
anywhere, but no folder is taken away, and no link is made or changed. -/
structure ChangesOnly (d d' : Disk) (places : List Location) : Prop where
  current : d'.current = d.current
  ways : d.root.KeepsWays d'.root
  files : ∀ l, l ∉ places → ∀ bytes,
    d'.root.thing? l = some (.file bytes) ↔ d.root.thing? l = some (.file bytes)

variable {places more : List Location}

theorem ChangesOnly.refl (d : Disk) (places : List Location) : d.ChangesOnly d places :=
  ⟨rfl, ⟨fun _ h => h, fun _ _ => .rfl⟩, fun _ _ _ => .rfl⟩

theorem ChangesOnly.mono (h : d.ChangesOnly d' places) (hsub : places ⊆ more) :
    d.ChangesOnly d' more :=
  ⟨h.current, h.ways, fun l hl => h.files l (mt (@hsub l) hl)⟩

theorem ChangesOnly.trans {d'' : Disk} (h : d.ChangesOnly d' places)
    (h' : d'.ChangesOnly d'' places) : d.ChangesOnly d'' places where
  current := h'.current.trans h.current
  ways :=
    ⟨fun l hl => h'.ways.folder l (h.ways.folder l hl),
      fun l target => (h'.ways.link l target).trans (h.ways.link l target)⟩
  files l hl bytes := (h'.files l hl bytes).trans (h.files l hl bytes)

theorem AddsFolders.changesOnly (h : d.AddsFolders d') : d.ChangesOnly d' [] :=
  ⟨h.current, h.keepsWays, fun _ _ _ => h.thing?_iff (by simp)⟩

/-- Writing a file changes the file at the location of its path. -/
theorem exists_changesOnly_write (d : Disk) (p : Path) (bytes : ByteArray) :
    ∃ places, d.ChangesOnly (d.write p bytes).2 places ∧
      ∀ l ∈ places, d.locate true p = .ok l := by
  obtain ⟨e, he⟩ | ⟨l, hl, -, hwrite, hold, hnew⟩ := d.write_cases p bytes
  · rw [he]
    exact ⟨[], .refl d [], by simp⟩
  · rw [hwrite]
    refine ⟨[l], ⟨rfl, keepsWays_of_file hold hnew, fun m hm old => ?_⟩, by simpa using hl⟩
    rw [hnew, if_neg (by simpa using hm)]

/-- A file that does not stand at one of the locations is read as before. -/
theorem ChangesOnly.read {bytes : ByteArray} (h : d.ChangesOnly d' places)
    (hp : ∀ l ∈ places, d.locate true p ≠ .ok l) (hread : d.read p = .ok bytes) :
    d'.read p = .ok bytes := by
  refine read_of_keepsWays h.ways h.current (fun l hbytes hl => ?_) hread
  exact (h.files l (fun hmem => hp l hmem hl) bytes).2 hbytes

end GlyphTrim.Disk
