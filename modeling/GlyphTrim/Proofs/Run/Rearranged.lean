import GlyphTrim.Proofs.Scan.Merge
import GlyphTrim.Run.Emit
import GlyphTrim.Run.Project
import Mathlib.Data.List.Perm.Basic

/-!
# Rearranged configurations

The lists of a configuration are written by hand, in any order and with repetitions. What they have
to say is their items alone: walks from the same entries find the same files, in another order at
most, and the classes in use are the same set. `Project.analyze_of_rearranges` carries this through
the whole analysis, up to what is written.
-/

namespace GlyphTrim

/-! ## Walks from the same entries -/

namespace Scan

variable {d : Disk} {entries entries' excluded excluded' : List Path}

/-- Only which paths are excluded matters to a walk. -/
theorem walk_congr (h : ∀ p, p ∈ excluded ↔ p ∈ excluded') : walk d excluded = walk d excluded' := by
  have hhidden : (fun p => (excluded.map Path.normalize).contains p) =
      fun p => (excluded'.map Path.normalize).contains p := by
    funext p
    rw [Bool.eq_iff_iff]
    simp only [List.contains_iff_mem, List.mem_map, h]
  funext entry
  rw [walk, walk, hhidden]

/-- **Walks from the same entries find the same files**, each of them once. -/
theorem perm_files_findSources (hentries : ∀ e, e ∈ entries ↔ e ∈ entries')
    (hexcluded : ∀ p, p ∈ excluded ↔ p ∈ excluded') :
    (findSources d entries excluded).files.Perm (findSources d entries' excluded').files := by
  rw [files_findSources, files_findSources,
    List.perm_ext_iff_of_nodup (nodup_eraseDups _) (nodup_eraseDups _), walk_congr hexcluded]
  intro file
  simp only [List.mem_eraseDups, List.mem_map, List.mem_flatMap, hentries]

end Scan

/-! ## Reports on the same files -/

namespace ScanReport

/-- The reports say the same, though they may say it in another order. -/
structure Agrees (r r' : ScanReport) : Prop where
  files : r.files.Perm r'.files
  used : r.used = r'.used
  gaps : r.gaps.Perm r'.gaps
  skipped : r.skipped.Perm r'.skipped

theorem agrees_ofFiles {d : Disk} {files files' : List String} (h : files.Perm files') :
    (ofFiles d files).Agrees (ofFiles d files') where
  files := by rw [(walk_ofFiles d files).1, (walk_ofFiles d files').1]
  used := used_ofFiles_of_mem_iff fun _ => h.mem_iff
  gaps := by
    rw [gaps_ofFiles, gaps_ofFiles]
    exact (h.filterMap _).flatMap_right _
  skipped := by
    rw [skipped_ofFiles, skipped_ofFiles]
    exact h.filterMap _

end ScanReport

/-! ## Configurations with the same items -/

/-- The configurations are the same but for the order of the items in their lists, and for how
often an item is in a list. -/
structure Config.Rearranges (c c' : Config) : Prop where
  entry : ∀ e, e ∈ c.entry ↔ e ∈ c'.entry
  excludeClasses : ∀ n, n ∈ c.excludeClasses ↔ n ∈ c'.excludeClasses
  excludeFilePath : ∀ p, p ∈ c.excludeFilePath ↔ p ∈ c'.excludeFilePath
  stylesheet : c.stylesheet = c'.stylesheet
  font : c.font = c'.font
  iconPrefix : c.iconPrefix = c'.iconPrefix

/-- The analyses agree on all that is written, and their scans agree. -/
structure Analysis.Agrees (a a' : Analysis) : Prop where
  scan : a.scan.Agrees a'.scan
  index : a.index = a'.index
  retained : a.retained = a'.retained
  cssText : a.cssText = a'.cssText
  plan : a.plan = a'.plan
  fontWarnings : a.fontWarnings = a'.fontWarnings

namespace Project

variable {c c' : Config} (h : c.Rearranges c') (root : Path) (disk : Disk)

include h

theorem agrees_scan : (scan ⟨root, c⟩ disk).Agrees (scan ⟨root, c'⟩ disk) := by
  have hfiles : (Scan.findSources disk (c.entryDirs root) (c.excludedPaths root)).files.Perm
      (Scan.findSources disk (c'.entryDirs root) (c'.excludedPaths root)).files := by
    refine Scan.perm_files_findSources (fun e => ?_) (fun p => ?_)
    · simp only [Config.entryDirs, List.mem_map, h.entry]
    · simp only [Config.excludedPaths, List.mem_map, h.excludeFilePath]
  have hkept : NameSet.ofList c.excludeClasses = NameSet.ofList c'.excludeClasses :=
    NameSet.ext_contains fun n => by simp only [NameSet.contains_ofList, h.excludeClasses]
  have hreports : (ScanReport.ofFiles disk _).Agrees (ScanReport.ofFiles disk _) :=
    ScanReport.agrees_ofFiles hfiles
  exact {
    files := hfiles
    used := congrArg₂ NameSet.union hreports.used hkept
    gaps := hreports.gaps
    skipped := hreports.skipped }

theorem cssPath_of_rearranges : cssPath ⟨root, c⟩ = cssPath ⟨root, c'⟩ :=
  congrArg (fun css => root.resolve ⟨css⟩) h.stylesheet

theorem fontPath_of_rearranges : fontPath ⟨root, c⟩ = fontPath ⟨root, c'⟩ :=
  congrArg (fun font => root.resolve ⟨font⟩) h.font

theorem readSheet_of_rearranges : readSheet ⟨root, c⟩ disk = readSheet ⟨root, c'⟩ disk := by
  unfold readSheet
  rw [cssPath_of_rearranges h root]

theorem agrees_analysisOf (sheet : Css.Sheet) :
    (analysisOf ⟨root, c⟩ disk (scan ⟨root, c⟩ disk) sheet).Agrees
      (analysisOf ⟨root, c'⟩ disk (scan ⟨root, c'⟩ disk) sheet) := by
  have hscan := agrees_scan h root disk
  have hindex := congrArg (Glyph.buildIndex sheet) hscan.used
  have hretained := congrArg₂ Glyph.reconcile hscan.used hindex
  have hplan := congr (congrArg₂ Glyph.Plan.ofRetained hretained (fontPath_of_rearranges h root))
    (cssPath_of_rearranges h root)
  have hwarnings := congrArg (fontWarnings disk) hplan
  exact {
    scan := hscan
    index := hindex
    retained := hretained
    cssText := congrArg₂ (Glyph.prunedCss sheet) hretained h.iconPrefix
    plan := hplan
    fontWarnings := hwarnings }

/-- **Rearranged configurations lead to the same result.** Either there is no analysis for the same
reason, or the analyses agree, and the same is asked of a subsetter and the same is written. -/
theorem analyze_of_rearranges :
    (∃ e, analyze ⟨root, c⟩ disk = .error e ∧ analyze ⟨root, c'⟩ disk = .error e) ∨
      ∃ a a', analyze ⟨root, c⟩ disk = .ok a ∧ analyze ⟨root, c'⟩ disk = .ok a' ∧ a.Agrees a' ∧
        Subsetter.arguments a.plan.request = Subsetter.arguments a'.plan.request ∧
        ∀ (σ : Type) (subset : Subsetter σ) (bench : Bench σ),
          emit subset a.plan a.cssText bench = emit subset a'.plan a'.cssText bench := by
  have hsheet := readSheet_of_rearranges h root disk
  unfold analyze
  generalize readSheet ⟨root, c⟩ disk = result, readSheet ⟨root, c'⟩ disk = result' at hsheet ⊢
  subst hsheet
  cases result with
  | error e => exact .inl ⟨e, rfl, rfl⟩
  | ok sheet =>
    have hagrees := agrees_analysisOf h root disk sheet
    refine .inr ⟨_, _, rfl, rfl, hagrees, ?_, fun σ subset bench => ?_⟩
    · rw [hagrees.plan]
    · rw [hagrees.plan, hagrees.cssText]

end Project

/-! ## A project with two configurations -/

/-- A configuration with folders to scan and classes to keep. -/
def listedConfig (entry excludeClasses : List String) : Config where
  entry := entry
  stylesheet := "i.css"
  font := "i.ttf"
  iconPrefix := "i"
  excludeClasses := excludeClasses

/-- A disk with two source files in folders of their own, an empty font and a stylesheet. -/
def listedDisk : Disk :=
  ⟨.folder [
    .mk "src" (.folder [.mk "App.jsx" (.file .empty)]),
    .mk "lib" (.folder [.mk "Box.jsx" (.file .empty)]),
    .mk "i.ttf" (.file .empty),
    .mk "i.css" (.file (Text.encode ".i-a:before\x7bcontent:\"\\e601\"\x7d"))], []⟩

/-- Listing the folders the other way around, and one of them and a class twice, changes nothing. -/
theorem analyze_of_rearranges_listedDisk :
    (listedConfig ["src", "lib"] ["i-a"]).Rearranges
        (listedConfig ["lib", "src", "lib"] ["i-a", "i-a"]) ∧
      ∃ a a', Project.analyze ⟨⟨"."⟩, listedConfig ["src", "lib"] ["i-a"]⟩ listedDisk = .ok a ∧
        Project.analyze ⟨⟨"."⟩, listedConfig ["lib", "src", "lib"] ["i-a", "i-a"]⟩ listedDisk =
          .ok a' ∧
        a.Agrees a' := by
  have hconfigs : (listedConfig ["src", "lib"] ["i-a"]).Rearranges
      (listedConfig ["lib", "src", "lib"] ["i-a", "i-a"]) := by
    constructor <;> simp [listedConfig, or_comm]
  have hthere : (Project.analyze ⟨⟨"."⟩, listedConfig ["src", "lib"] ["i-a"]⟩
      listedDisk).toOption.isSome = true := by
    decide +kernel
  refine ⟨hconfigs, ?_⟩
  rcases Project.analyze_of_rearranges hconfigs ⟨"."⟩ listedDisk with
    ⟨e, herror, -⟩ | ⟨a, a', ha, ha', hagrees, -⟩
  · rw [herror] at hthere
    exact absurd hthere Bool.false_ne_true
  · exact ⟨a, a', ha, ha', hagrees⟩

end GlyphTrim
