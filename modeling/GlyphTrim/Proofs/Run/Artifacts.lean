import GlyphTrim.Proofs.Config.Load
import GlyphTrim.Proofs.Disk.Place
import GlyphTrim.Run.Project

/-!
# Where the artifacts go

The smaller font and the pruned stylesheet of a project go into a folder beside the font, which is
named after the stem of the font (`Project.exists_places`). Their names tell them from source files
and from a configuration under its own name, since the extensions differ (`EndsIn.ne`).
-/

namespace GlyphTrim

open GlyphTrim.Path Glyph

/-! ## Extensions -/

/-- A name with one of some extensions. -/
def EndsIn (extensions : List String) (name : String) : Prop :=
  ∃ e, (splitExtension name).2 = some e ∧ ∃ x ∈ extensions, Text.sameIgnoringCase e x = true

theorem exists_endsIn_of_hasExtension {extensions : List String} {value : String}
    (h : Config.Site.hasExtension extensions value = true) :
    ∃ n, (⟨value⟩ : Path).fileName? = some n ∧ EndsIn extensions n := by
  unfold Config.Site.hasExtension at h
  split at h
  · rename_i e he
    obtain ⟨n, hn, he⟩ := Option.bind_eq_some_iff.1 he
    exact ⟨n, hn, e, he, List.any_eq_true.1 h⟩
  · exact absurd h (by simp)

theorem exists_endsIn_of_isSourcePath {p : Path} (h : Scan.isSourcePath p = true) :
    ∃ n, p.fileName? = some n ∧ EndsIn ["jsx", "tsx"] n := by
  unfold Scan.isSourcePath at h
  split at h
  · rename_i e he
    obtain ⟨n, hn, he⟩ := Option.bind_eq_some_iff.1 he
    exact ⟨n, hn, e, he, by simpa using h⟩
  · exact absurd h (by simp)

/-- A name does not have extensions that differ by more than case. -/
theorem EndsIn.ne {xs ys : List String} {m n : String} (hm : EndsIn xs m) (hn : EndsIn ys n)
    (hdistinct : ∀ x ∈ xs, ∀ y ∈ ys, Text.sameIgnoringCase x y = false) : m ≠ n := by
  rintro rfl
  obtain ⟨e, he, x, hx, hex⟩ := hm
  obtain ⟨e', he', y, hy, hey⟩ := hn
  obtain rfl := Option.some.inj (he.symm.trans he')
  have hxy : Text.sameIgnoringCase x y = true := by
    rw [Text.sameIgnoringCase, beq_iff_eq] at hex hey ⊢
    exact hex.symm.trans hey
  rw [hdistinct x hx y hy] at hxy
  exact absurd hxy (by simp)

/-! ## The two artifacts -/

namespace Project

/-- Where the smaller font goes. -/
def fontArtifact (p : Project) : Path :=
  (minOutputDir p.fontPath).join ⟨p.fontPath.fileName?.getD "iconfont.ttf"⟩

/-- Where the pruned stylesheet goes. -/
def sheetArtifact (p : Project) : Path :=
  (minOutputDir p.fontPath).join ⟨p.cssPath.fileName?.getD ""⟩

/-- The places of the artifacts. -/
def artifactPlaces (p : Project) (d : Disk) : List Location :=
  [d.place p.fontArtifact, d.place p.sheetArtifact]

/-- Where the files of a project are: the artifacts lie in a folder beside the font that is named
after the stem of the font, and have the names of the font and of the stylesheet. -/
structure Places (p : Project) (d : Disk) (folder : Location) (fontName sheetName : String) :
    Prop where
  font : d.place p.fontPath = folder ++ [fontName]
  fontArtifact :
    d.place p.fontArtifact = folder ++ [(splitExtension fontName).1 ++ "-min", fontName]
  sheet : (d.place p.cssPath).getLast? = some sheetName
  sheetArtifact :
    d.place p.sheetArtifact = folder ++ [(splitExtension fontName).1 ++ "-min", sheetName]
  font_endsIn : EndsIn ["ttf", "otf"] fontName
  sheet_endsIn : EndsIn ["css"] sheetName

theorem isFileName_min {n : String} (hn : IsFileName n) :
    IsFileName ((splitExtension n).1 ++ "-min") :=
  isFileName_stem_append hn (by decide) (c := 'm') (by decide) (by decide)

/-- Where a name behind the folder for what is written leads to, for a font whose path is in normal
form. -/
theorem place_join_minOutputDir (d : Disk) {absolute : Bool} {n k : String} {names : List String}
    (h : (⟨absolute, n :: names⟩ : Folded).IsNormal) (hn : IsFileName n) (hk : IsFileName k) :
    d.place ((minOutputDir (Folded.toPath ⟨absolute, n :: names⟩)).join ⟨k⟩) =
      d.place (Folded.toPath ⟨absolute, names⟩) ++ [(splitExtension n).1 ++ "-min", k] := by
  have hmin := isFileName_min hn
  have hminproper : (Component.name ((splitExtension n).1 ++ "-min")).IsProper := hmin
  have hproper : (Component.name k).IsProper := hk
  have hdir : (⟨absolute, ((splitExtension n).1 ++ "-min") :: names⟩ : Folded).IsNormal :=
    h.tail.push hminproper
  have hpath : minOutputDir (Folded.toPath ⟨absolute, n :: names⟩) =
      Folded.toPath ⟨absolute, ((splitExtension n).1 ++ "-min") :: names⟩ := by
    rw [minOutputDir, h.parent?_toPath, fileStem?, h.fileName?_toPath hn.ne_dots]
    exact h.tail.join_toPath hmin
  have hwhole : (⟨absolute, k :: ((splitExtension n).1 ++ "-min") :: names⟩ : Folded).IsNormal :=
    hdir.push hproper
  rw [hpath, hdir.join_toPath hk, Disk.place_toPath_cons hwhole hk.ne_dots,
    Disk.place_toPath_cons hdir hmin.ne_dots]
  simp

variable {disk : Disk} {root : Path} {named : Option Path} {p : Project}

theorem exists_load (hload : Project.load disk root named = .ok p) :
    ∃ c, Config.load disk root named = .ok c ∧ p = ⟨root, c⟩ := by
  unfold Project.load at hload
  split at hload
  · rename_i c hc
    exact ⟨c, hc, (Except.ok.inj hload).symm⟩
  · exact absurd hload (by simp)

/-- The stylesheet and the font of a project that was loaded are files. -/
theorem exists_read_of_load (hload : Project.load disk root named = .ok p) :
    (∃ bytes, disk.read (Config.path root named) = .ok bytes) ∧
      (∃ bytes, disk.read p.cssPath = .ok bytes) ∧ ∃ bytes, disk.read p.fontPath = .ok bytes := by
  obtain ⟨c, hc, rfl⟩ := exists_load hload
  obtain ⟨bytes, text, hbytes, -, htext⟩ := Config.exists_ofText_of_load hc
  obtain ⟨⟨-, hcss⟩, -, hfont⟩ := Config.isNamedFile_of_ofText htext
  exact ⟨⟨bytes, hbytes⟩, hcss, hfont⟩

/-- **The places of the artifacts** of a project that was loaded. -/
theorem exists_places (hload : Project.load disk root named = .ok p) (d : Disk) :
    ∃ folder fontName sheetName, p.Places d folder fontName sheetName := by
  obtain ⟨c, hc, rfl⟩ := exists_load hload
  obtain ⟨bytes, text, -, -, htext⟩ := Config.exists_ofText_of_load hc
  obtain ⟨⟨hcss, -⟩, hface, -⟩ := Config.isNamedFile_of_ofText htext
  obtain ⟨n, hn, hnends⟩ := exists_endsIn_of_hasExtension hface
  obtain ⟨m, hm, hmends⟩ := exists_endsIn_of_hasExtension hcss
  have hnname := isFileName_of_fileName? hn
  have hmname := isFileName_of_fileName? hm
  obtain ⟨absolute, names, hnormal, hfont⟩ := exists_resolve_eq hn root
  obtain ⟨absolute', names', hnormal', hsheet⟩ := exists_resolve_eq hm root
  have hfontPath : (⟨root, c⟩ : Project).fontPath = Folded.toPath ⟨absolute, n :: names⟩ := hfont
  have hcssPath : (⟨root, c⟩ : Project).cssPath = Folded.toPath ⟨absolute', m :: names'⟩ := hsheet
  have hfontName := hnormal.fileName?_toPath hnname.ne_dots
  have hsheetName := hnormal'.fileName?_toPath hmname.ne_dots
  refine ⟨d.place (Folded.toPath ⟨absolute, names⟩), n, m, ?_, ?_, ?_, ?_, hnends, hmends⟩
  · rw [hfontPath, Disk.place_toPath_cons hnormal hnname.ne_dots]
  · rw [Project.fontArtifact, hfontPath, hfontName]
    exact place_join_minOutputDir d hnormal hnname hnname
  · rw [hcssPath]
    exact Disk.getLast?_place hsheetName
  · rw [Project.sheetArtifact, hfontPath, hcssPath, hsheetName]
    exact place_join_minOutputDir d hnormal hnname hmname

/-- The font is none of the artifacts: they lie deeper. -/
theorem Places.font_not_mem {d : Disk} {folder : Location} {fontName sheetName : String}
    (h : p.Places d folder fontName sheetName) : d.place p.fontPath ∉ p.artifactPlaces d := by
  rw [artifactPlaces, h.font, h.fontArtifact, h.sheetArtifact]
  simp

/-- A file whose extension is none of a font or a stylesheet is none of the artifacts. -/
theorem Places.not_mem_of_endsIn {d : Disk} {folder : Location} {fontName sheetName : String}
    (h : p.Places d folder fontName sheetName) {q : Path} {n : String} (hq : q.fileName? = some n)
    {extensions : List String} (hn : EndsIn extensions n)
    (hfont : ∀ x ∈ extensions, ∀ y ∈ ["ttf", "otf"], Text.sameIgnoringCase x y = false)
    (hsheet : ∀ x ∈ extensions, ∀ y ∈ ["css"], Text.sameIgnoringCase x y = false) :
    d.place q ∉ p.artifactPlaces d := by
  have hlast : (d.place q).getLast? = some n := Disk.getLast?_place hq
  rw [artifactPlaces, h.fontArtifact, h.sheetArtifact, List.mem_pair]
  rintro (heq | heq)
  · rw [heq, List.getLast?_append_of_ne_nil _ (by simp)] at hlast
    exact hn.ne h.font_endsIn hfont (by simpa using hlast.symm)
  · rw [heq, List.getLast?_append_of_ne_nil _ (by simp)] at hlast
    exact hn.ne h.sheet_endsIn hsheet (by simpa using hlast.symm)

/-- The stylesheet is not where the smaller font goes. -/
theorem Places.sheet_ne_fontArtifact {d : Disk} {folder : Location} {fontName sheetName : String}
    (h : p.Places d folder fontName sheetName) : d.place p.cssPath ≠ d.place p.fontArtifact := by
  intro heq
  have hlast := h.sheet
  rw [heq, h.fontArtifact, List.getLast?_append_of_ne_nil _ (by simp)] at hlast
  exact h.font_endsIn.ne h.sheet_endsIn (by decide) (by simpa using hlast)

/-- The configuration does not change as long as its file does not. -/
theorem load_inj {d : Disk} {p' : Project} {places : List Location} (hlinks : disk.root.NoLinks)
    (hchanges : disk.ChangesOnly d places)
    (hconfig : disk.place (Config.path root named) ∉ places)
    (hload : Project.load disk root named = .ok p) (hload' : Project.load d root named = .ok p') :
    p' = p := by
  obtain ⟨c, hc, rfl⟩ := exists_load hload
  obtain ⟨c', hc', rfl⟩ := exists_load hload'
  obtain ⟨bytes, text, hread, hdecode, htext⟩ := Config.exists_ofText_of_load hc
  obtain ⟨bytes', text', hread', hdecode', htext'⟩ := Config.exists_ofText_of_load hc'
  have hlinks' : d.root.NoLinks := hlinks.of_keepsWays hchanges.ways
  have hbytes := Disk.thing?_place_of_read hlinks hread
  have hbytes' := Disk.thing?_place_of_read hlinks' hread'
  rw [Disk.place_congr hchanges.current, hchanges.files _ hconfig, hbytes, Option.some.injEq,
    Thing.file.injEq] at hbytes'
  obtain rfl := hbytes'
  obtain rfl := Option.some.inj (hdecode.symm.trans hdecode')
  rw [Config.ofText_inj htext htext']

end Project

end GlyphTrim
