import GlyphTrim.Config.Load
import GlyphTrim.Proofs.Config.Decode
import GlyphTrim.Proofs.Disk.Change

/-!
# What a loaded configuration says

A configuration that was loaded is the one that the text of its file holds
(`Config.exists_ofText_of_load`), and the text alone decides what it is (`Config.ofText_inj`). The
stylesheet and the font that it names are files with the extensions that are asked for
(`Config.isNamedFile_of_ofText`).
-/

namespace GlyphTrim.Config

/-! ## Loading -/

theorem exists_of_ofText {site : Site} {path : Path} {text : String} {c : Config}
    (h : ofText site path text = .ok c) :
    ∃ document, Document.ofText text = .ok document ∧ site.check document = [] ∧
      ofDocument document = .ok c := by
  unfold ofText at h
  split at h
  · exact absurd h (by simp)
  rename_i document hdocument
  split at h
  · rename_i hcheck
    split at h
    · rename_i config hconfig
      exact ⟨document, hdocument, hcheck, hconfig.trans (congrArg _ (Except.ok.inj h))⟩
    · exact absurd h (by simp)
  · exact absurd h (by simp)

/-- **The text decides** what the configuration is, if there is one. -/
theorem ofText_inj {site site' : Site} {path path' : Path} {text : String} {c c' : Config}
    (h : ofText site path text = .ok c) (h' : ofText site' path' text = .ok c') : c = c' := by
  obtain ⟨document, hdocument, -, hconfig⟩ := exists_of_ofText h
  obtain ⟨document', hdocument', -, hconfig'⟩ := exists_of_ofText h'
  obtain rfl := Except.ok.inj (hdocument.symm.trans hdocument')
  exact Except.ok.inj (hconfig.symm.trans hconfig')

/-- A string that names a file with one of some extensions. -/
def IsNamedFile (disk : Disk) (root : Path) (extensions : List String) (value : String) : Prop :=
  Site.hasExtension extensions value = true ∧
    ∃ bytes, disk.read (root.resolve ⟨value⟩) = .ok bytes

theorem isNamedFile_of_checkFile {site : Site} {f : Field} {extensions : List String}
    {value : String} (h : site.checkFile f extensions (some (.string value)) = []) :
    IsNamedFile site.disk site.root extensions value := by
  rw [Site.checkFile] at h
  split at h
  · exact absurd h (by simp)
  · rename_i hextension
    split at h
    · rename_i hfile
      exact ⟨by simpa using hextension, Disk.hasFile_iff.1 hfile⟩
    · exact absurd h (by simp)

/-- **The stylesheet and the font** of a configuration that was checked are files. -/
theorem isNamedFile_of_ofText {site : Site} {path : Path} {text : String} {c : Config}
    (h : ofText site path text = .ok c) :
    IsNamedFile site.disk site.root ["css"] c.stylesheet ∧
      IsNamedFile site.disk site.root ["ttf", "otf"] c.font := by
  obtain ⟨document, -, hcheck, hconfig⟩ := exists_of_ofText h
  obtain ⟨-, hmatches⟩ := ofDocument_eq_ok_iff.1 hconfig
  simp only [Site.check, List.append_eq_nil_iff, (hmatches .stylesheet).eq_some rfl,
    (hmatches .font).eq_some rfl] at hcheck
  obtain ⟨⟨⟨⟨⟨-, hcss⟩, hface⟩, -⟩, -⟩, -⟩ := hcheck
  exact ⟨isNamedFile_of_checkFile hcss, isNamedFile_of_checkFile hface⟩

/-- A configuration is loaded from the text of its file. -/
theorem exists_ofText_of_load {disk : Disk} {root : Path} {named : Option Path} {c : Config}
    (h : load disk root named = .ok c) :
    ∃ bytes text, disk.read (path root named) = .ok bytes ∧ Text.decode? bytes = some text ∧
      ofText ⟨disk, root⟩ (path root named) text = .ok c := by
  unfold load at h
  dsimp only at h
  split at h
  · split at h
    · exact absurd h (by simp)
    · rename_i text htext
      unfold Disk.readText at htext
      split at htext
      · rename_i bytes hbytes
        split at htext
        · rename_i hdecode
          obtain rfl := Except.ok.inj htext
          exact ⟨bytes, _, hbytes, hdecode, h⟩
        · exact absurd htext (by simp)
      · exact absurd htext (by simp)
  · exact absurd h (by simp)

theorem load_of_readText {disk : Disk} {root : Path} {named : Option Path} {text : String}
    (h : disk.readText (path root named) = .ok text) :
    load disk root named = ofText ⟨disk, root⟩ (path root named) text := by
  obtain ⟨bytes, hbytes⟩ : ∃ bytes, disk.read (path root named) = .ok bytes := by
    cases hread : disk.read (path root named) with
    | ok bytes => exact ⟨bytes, rfl⟩
    | error e =>
      rw [Disk.readText, hread] at h
      exact absurd h (by simp)
  have hfile : disk.hasFile (path root named) = true := Disk.hasFile_iff.2 ⟨bytes, hbytes⟩
  simp [load, hfile, h]

theorem load_of_read {disk : Disk} {root : Path} {named : Option Path} {text : String}
    (h : disk.read (path root named) = .ok (Text.encode text)) :
    load disk root named = ofText ⟨disk, root⟩ (path root named) text :=
  load_of_readText (by simp [Disk.readText, h])

end GlyphTrim.Config
