import GlyphTrim.CommandLine.Program
import GlyphTrim.Proofs.Run.Artifacts
import GlyphTrim.Proofs.Run.Emit
import GlyphTrim.Proofs.Scan.Found

/-!
# What runs leave alone

A run of the program on a project writes at two places at most, those of the smaller font and of the
pruned stylesheet. `CommandLine.kept_performAll` says which files are the same after any number of
runs: all others, and among them the font and the source files. The stylesheet is among them unless
it stands where the pruned one goes, and so is a configuration that does not stand where one of the
two goes; else they are written over (`CommandLine.not_forall_read_inputs`).
-/

namespace GlyphTrim

open Glyph

/-- A launcher whose programs write nothing but the file that the last argument names as the
output. -/
def Launcher.WritesOnly (launch : Launcher) : Prop :=
  ∀ (program : String) (arguments : List String) (output : String) (disk : Disk), ∃ places,
    disk.ChangesOnly (launch program (arguments ++ ["--output-file=" ++ output]) disk).2 places ∧
      ∀ l ∈ places, disk.locate true ⟨output⟩ = .ok l

namespace Disk

/-- Changes at the location of a path are changes at its place. -/
theorem ChangesOnly.at_place {d d' : Disk} (hlinks : d.root.NoLinks) {p : Path}
    (h : ∃ places, d.ChangesOnly d' places ∧ ∀ l ∈ places, d.locate true p = .ok l) :
    d.ChangesOnly d' [d.place p] := by
  obtain ⟨places, hchanges, hlocated⟩ := h
  refine hchanges.mono fun l hl => ?_
  rw [place_of_locate hlinks (hlocated l hl)]
  exact List.mem_singleton_self _

/-- A file is read as before if its place is none of those with changes. -/
theorem ChangesOnly.read_of_place {d d' : Disk} (hlinks : d.root.NoLinks) {p : Path}
    {places : List Location} (h : d.ChangesOnly d' places) (hp : d.place p ∉ places)
    {bytes : ByteArray} (hread : d.read p = .ok bytes) : d'.read p = .ok bytes := by
  refine h.read (fun l hl hlocate => hp ?_) hread
  rwa [← place_of_locate hlinks hlocate]

end Disk

/-! ## One run -/

section

variable {launch : Launcher} {disk : Disk}

/-- A program changes a file at the place of its output. -/
theorem changesOnly_ofProgram (hlaunch : launch.WritesOnly) (hlinks : disk.root.NoLinks)
    (program : String) (request : SubsetRequest) :
    disk.ChangesOnly (Subsetter.ofProgram launch program request ⟨disk, ()⟩).2.disk
      [disk.place request.outputFontPath] := by
  have hdisk : (Subsetter.ofProgram launch program request ⟨disk, ()⟩).2.disk =
      (launch program (Subsetter.arguments request) disk).2 := by
    rw [Subsetter.ofProgram]
    split
    · rename_i h
      rw [h]
    · rename_i h
      rw [h]
      dsimp only
      split <;> rfl
  rw [hdisk]
  exact .at_place hlinks (hlaunch program [request.fontPath.text, "--unicodes=" ++ request.ranges,
    "--no-hinting"] request.outputFontPath.text disk)

/-- Writing the result changes files at the places of the artifacts. -/
theorem changesOnly_emit (hlaunch : launch.WritesOnly) (hlinks : disk.root.NoLinks)
    (program : String) (plan : Plan) (cssText : String) :
    disk.ChangesOnly (emit (Subsetter.ofProgram launch program) plan cssText ⟨disk, ()⟩).2.disk
      [disk.place plan.request.outputFontPath, disk.place plan.cssPath] := by
  have hready := (disk.addsFolders_makeFolders plan.outputDir).changesOnly.mono
    (List.nil_subset [disk.place plan.request.outputFontPath, disk.place plan.cssPath])
  have hlinks' : (disk.makeFolders plan.outputDir).2.root.NoLinks :=
    hlinks.of_keepsWays hready.ways
  have hfont : disk.ChangesOnly
      (Subsetter.ofProgram launch program (requestFor plan)
        ⟨(disk.makeFolders plan.outputDir).2, ()⟩).2.disk
      [disk.place plan.request.outputFontPath, disk.place plan.cssPath] := by
    have hcall := changesOnly_ofProgram hlaunch hlinks' program (requestFor plan)
    rw [Disk.place_congr hready.current] at hcall
    exact hready.trans (hcall.mono (by simp [requestFor, Plan.request, Plan.text]))
  have hunlogged := emit_unlogged (Subsetter.ofProgram launch program) plan cssText ⟨disk, (), []⟩
  have hdisk := congrArg (fun run => run.2.disk) hunlogged
  have hemits := emits_logged (Subsetter.ofProgram launch program) plan cssText disk ()
  simp only [Bench.unlogged] at hdisk
  rw [hdisk]
  generalize emit (logged (Subsetter.ofProgram launch program)) plan cssText ⟨disk, (), []⟩ = run
    at hemits ⊢
  obtain ⟨result, after⟩ := run
  cases hemits with
  | skipped => exact .refl disk _
  | unprepared _ hmake => rwa [hmake] at hready
  | refused _ hmake hsubset => rwa [hmake, hsubset] at hfont
  | unwritable _ hmake hsubset => rwa [hmake, hsubset] at hfont
  | @written ready font left done _ hmake hsubset hwrite =>
    rw [hmake, hsubset] at hfont
    have hsheet : left.disk.ChangesOnly done [left.disk.place plan.cssPath] := by
      have hplaces := left.disk.exists_changesOnly_write plan.cssPath (Text.encode cssText)
      rw [hwrite] at hplaces
      exact .at_place (hlinks.of_keepsWays hfont.ways) hplaces
    rw [Disk.place_congr hfont.current] at hsheet
    exact hfont.trans (hsheet.mono (by simp))

/-- What is planned goes to the places of the artifacts. -/
theorem Project.plan_of_analyze {p : Project} {a : Analysis} (h : p.analyze disk = .ok a) :
    a.plan.request.outputFontPath = p.fontArtifact ∧ a.plan.cssPath = p.sheetArtifact := by
  unfold Project.analyze at h
  split at h
  · exact absurd h (by simp)
  · rename_i sheet _
    have hplan : ∀ scan, ∃ retained,
        (p.analysisOf disk scan sheet).plan = Plan.ofRetained retained p.fontPath p.cssPath :=
      fun scan => ⟨_, rfl⟩
    obtain ⟨retained, hplan⟩ := hplan (p.scan disk)
    rw [← Except.ok.inj h, hplan]
    simp only [Plan.request, SubsetRequest.outputFontPath, Plan.ofRetained, Project.fontArtifact,
      Project.sheetArtifact, and_self]

/-- A purge writes the result of the analysis. -/
theorem Project.runPurge_of_analyze {σ : Type} (subset : Subsetter σ) {root : Path}
    {named : Option Path} {bench : Bench σ} {p : Project} {a : Analysis}
    (hload : Project.load bench.disk root named = .ok p) (h : p.analyze bench.disk = .ok a) :
    (Project.runPurge subset root named bench).2 = (emit subset a.plan a.cssText bench).2 := by
  rw [Project.runPurge, hload]
  simp only [bind, Except.bind, h]
  cases emit subset a.plan a.cssText bench with
  | mk result after => cases result <;> rfl

/-- A purge ends after the analysis, or it writes the result of the analysis. -/
theorem Project.runPurge_cases {σ : Type} (subset : Subsetter σ) (root : Path)
    (named : Option Path) (bench : Bench σ) :
    (Project.runPurge subset root named bench).2 = bench ∨
      ∃ p a, Project.load bench.disk root named = .ok p ∧ p.analyze bench.disk = .ok a ∧
        (Project.runPurge subset root named bench).2 = (emit subset a.plan a.cssText bench).2 := by
  cases hload : Project.load bench.disk root named with
  | error e =>
    rw [Project.runPurge, hload]
    exact .inl rfl
  | ok p =>
    cases hanalyze : p.analyze bench.disk with
    | error e =>
      rw [Project.runPurge, hload]
      simp [bind, Except.bind, hanalyze]
    | ok a => exact .inr ⟨p, a, rfl, hanalyze, Project.runPurge_of_analyze subset hload hanalyze⟩

/-- A purge of a project changes files at the places of its artifacts. -/
theorem changesOnly_runPurge (hlaunch : launch.WritesOnly) (hlinks : disk.root.NoLinks)
    (program : String) (root : Path) (named : Option Path) :
    (Project.runPurge (Subsetter.ofProgram launch program) root named ⟨disk, ()⟩).2.disk = disk ∨
      ∃ p, Project.load disk root named = .ok p ∧
        disk.ChangesOnly
          (Project.runPurge (Subsetter.ofProgram launch program) root named ⟨disk, ()⟩).2.disk
          (p.artifactPlaces disk) := by
  obtain hrun | ⟨p, a, hload, hanalyze, hrun⟩ :=
    Project.runPurge_cases (Subsetter.ofProgram launch program) root named ⟨disk, ()⟩
  · exact .inl (by rw [hrun])
  · obtain ⟨hfont, hsheet⟩ := Project.plan_of_analyze hanalyze
    refine .inr ⟨p, hload, ?_⟩
    rw [hrun, Project.artifactPlaces, ← hfont, ← hsheet]
    exact changesOnly_emit hlaunch hlinks program a.plan a.cssText

end

/-! ## Many runs -/

namespace CommandLine

/-- A request to analyze the project with a root and a configuration, or to write what stays. -/
def Request.IsOn (root : Path) (named : Option Path) : Request → Prop
  | .purge r _ | .scan r => r.root = root ∧ r.config = named
  | .init _ => False

/-- The disk after requests one after the other, each with the programs that there are then. -/
def performAll (disk : Disk) (runs : List (Launcher × Request)) : Disk :=
  runs.foldl (fun d r => (perform r.1 d r.2).2) disk

/-- A run changes files at the places of the artifacts of its project. -/
theorem changesOnly_perform {launch : Launcher} {disk : Disk} {root : Path} {named : Option Path}
    {request : Request} (hlaunch : launch.WritesOnly) (hlinks : disk.root.NoLinks)
    (hrequest : request.IsOn root named) :
    (perform launch disk request).2 = disk ∨
      ∃ p, Project.load disk root named = .ok p ∧
        disk.ChangesOnly (perform launch disk request).2 (p.artifactPlaces disk) := by
  cases request with
  | init root => exact absurd hrequest id
  | scan r => exact .inl rfl
  | purge r program =>
    obtain ⟨rfl, rfl⟩ := hrequest
    exact changesOnly_runPurge hlaunch hlinks program r.root r.config

section

variable {disk : Disk} {root : Path} {named : Option Path} {p : Project}
  {runs : List (Launcher × Request)}

/-- **Any number of runs** change files at the places of the artifacts. -/
theorem changesOnly_performAll (hlinks : disk.root.NoLinks)
    (hload : Project.load disk root named = .ok p)
    (hconfig : disk.place (Config.path root named) ∉ p.artifactPlaces disk)
    (hruns : ∀ r ∈ runs, r.1.WritesOnly ∧ r.2.IsOn root named) :
    disk.ChangesOnly (performAll disk runs) (p.artifactPlaces disk) := by
  have hsteps : ∀ d, disk.ChangesOnly d (p.artifactPlaces disk) →
      disk.ChangesOnly (performAll d runs) (p.artifactPlaces disk) := by
    induction runs with
    | nil => exact fun d hd => hd
    | cons r runs ih =>
      intro d hd
      refine ih (fun s hs => hruns s (List.mem_cons_of_mem r hs)) (perform r.1 d r.2).2 ?_
      obtain ⟨hlaunch, hrequest⟩ := hruns r List.mem_cons_self
      have hlinks' : d.root.NoLinks := hlinks.of_keepsWays hd.ways
      obtain heq | ⟨p', hload', hchanges⟩ := changesOnly_perform hlaunch hlinks' hrequest
      · rwa [heq]
      · obtain rfl := Project.load_inj hlinks hd hconfig hload hload'
        rw [Project.artifactPlaces, Disk.place_congr hd.current, Disk.place_congr hd.current]
          at hchanges
        exact hd.trans hchanges
  exact hsteps disk (.refl disk _)

/-- A configuration under its own name is none of the artifacts. -/
theorem configPath_not_mem (hload : Project.load disk root named = .ok p)
    (hconfig : ∀ q, named = some q → disk.place (root.resolve q) ∉ p.artifactPlaces disk) :
    disk.place (Config.path root named) ∉ p.artifactPlaces disk := by
  cases named with
  | some q => exact hconfig q rfl
  | none =>
    obtain ⟨folder, fontName, sheetName, hplaces⟩ := Project.exists_places hload disk
    have hname : (root.join ⟨Config.fileName⟩).fileName? = some Config.fileName :=
      Path.fileName?_join (by decide) root
    have hends : EndsIn ["json"] Config.fileName := ⟨"json", by decide, by decide⟩
    exact hplaces.not_mem_of_endsIn hname hends (by decide) (by decide)

/-- **Inputs are kept** by any number of runs. No file changes or appears but at the places of the
two artifacts, which lie in a folder beside the font that is named after its stem. The
configuration, the font and all source files are read as before, and none of the font and the source
files is at one of the places. The stylesheet is read as before unless it is at the place of the
pruned one. -/
theorem kept_performAll (hlinks : disk.root.NoLinks)
    (hload : Project.load disk root named = .ok p)
    (hconfig : ∀ q, named = some q → disk.place (root.resolve q) ∉ p.artifactPlaces disk)
    (hruns : ∀ r ∈ runs, r.1.WritesOnly ∧ r.2.IsOn root named) :
    let after := performAll disk runs
    (∀ l, l ∉ p.artifactPlaces disk → ∀ bytes,
      after.root.thing? l = some (.file bytes) ↔ disk.root.thing? l = some (.file bytes)) ∧
    (∃ folder fontName sheetName, p.Places disk folder fontName sheetName) ∧
    after.read (Config.path root named) = disk.read (Config.path root named) ∧
    (after.read p.fontPath = disk.read p.fontPath ∧
      disk.place p.fontPath ∉ p.artifactPlaces disk) ∧
    (∀ q, Scan.isSourcePath q = true → disk.place q ∉ p.artifactPlaces disk ∧
      ∀ bytes, disk.read q = .ok bytes → after.read q = .ok bytes) ∧
    (∀ f ∈ (p.scan disk).files, Scan.isSourcePath ⟨f⟩ = true) ∧
    (disk.place p.cssPath ≠ disk.place p.sheetArtifact →
      after.read p.cssPath = disk.read p.cssPath) := by
  intro after
  obtain ⟨folder, fontName, sheetName, hplaces⟩ := Project.exists_places hload disk
  obtain ⟨⟨config, hreadConfig⟩, ⟨css, hreadCss⟩, font, hreadFont⟩ :=
    Project.exists_read_of_load hload
  have hconfigPlace := configPath_not_mem hload hconfig
  have hchanges : disk.ChangesOnly after (p.artifactPlaces disk) :=
    changesOnly_performAll hlinks hload hconfigPlace hruns
  have hsources : ∀ q, Scan.isSourcePath q = true → disk.place q ∉ p.artifactPlaces disk := by
    intro q hq
    obtain ⟨n, hn, hends⟩ := exists_endsIn_of_isSourcePath hq
    exact hplaces.not_mem_of_endsIn hn hends (by decide) (by decide)
  refine ⟨hchanges.files, ⟨folder, fontName, sheetName, hplaces⟩, ?_, ⟨?_, hplaces.font_not_mem⟩,
    fun q hq => ⟨hsources q hq, fun bytes => hchanges.read_of_place hlinks (hsources q hq)⟩,
    fun f => Scan.isSourcePath_of_mem_files, fun hsheet => ?_⟩
  · rw [hreadConfig, hchanges.read_of_place hlinks hconfigPlace hreadConfig]
  · rw [hreadFont, hchanges.read_of_place hlinks hplaces.font_not_mem hreadFont]
  · have hcss : disk.place p.cssPath ∉ p.artifactPlaces disk := by
      rw [Project.artifactPlaces, List.mem_pair, not_or]
      exact ⟨hplaces.sheet_ne_fontArtifact, hsheet⟩
    rw [hreadCss, hchanges.read_of_place hlinks hcss hreadCss]

end

/-! ## A project whose stylesheet is kept -/

/-- The configuration of a project with one class to keep. -/
def smallConfig (css : String) : Config where
  entry := ["src"]
  stylesheet := css
  font := "i.ttf"
  iconPrefix := "i"
  excludeClasses := ["i-a"]

/-- The text of the configuration. -/
def smallText (css : String) : String :=
  "\x7b\"entry\":[\"src\"],\"iconfontCssPath\":\"" ++ css ++
    "\",\"fontTTFPath\":\"i.ttf\",\"iconPrefix\":\"i\",\"excludeClasses\":[\"i-a\"]\x7d"

/-- A stylesheet with the glyph of the class, and a rule of another one. -/
def smallCss : String := ".i-a:before\x7bcontent:\"\\e601\"\x7d .b\x7btop:0\x7d"

/-- A disk with a folder to scan, an empty font and some more entries. -/
def smallDisk (entries : List Entry) : Disk :=
  ⟨.folder (.mk "src" (.folder []) :: .mk "i.ttf" (.file .empty) :: entries), []⟩

theorem noLinks_smallDisk {entries : List Entry} (h : ∀ n t, .mk n t ∈ entries → t.NoLinks) :
    (smallDisk entries).root.NoLinks := by
  refine Tree.noLinks_folder fun n t ht => ?_
  simp only [List.mem_cons, Entry.mk.injEq] at ht
  obtain ⟨-, rfl⟩ | ⟨-, rfl⟩ | ht := ht
  · exact Tree.noLinks_folder (by simp)
  · exact Tree.noLinks_file _
  · exact h n t ht

theorem noLinks_of_pair {m n : String} {a b : ByteArray} :
    ∀ k t, .mk k t ∈ [Entry.mk m (.file a), Entry.mk n (.file b)] → t.NoLinks := by
  intro k t ht
  simp only [List.mem_cons, List.not_mem_nil, or_false, Entry.mk.injEq] at ht
  obtain ⟨-, rfl⟩ | ⟨-, rfl⟩ := ht
  · exact Tree.noLinks_file a
  · exact Tree.noLinks_file b

/-- The project is loaded if its text can be read as a configuration. -/
theorem load_of_text {disk : Disk} {root : Path} {named : Option Path} {text : String} {c : Config}
    (hread : disk.read (Config.path root named) = .ok (Text.encode text))
    (htext : (Config.ofText ⟨disk, root⟩ (Config.path root named) text).toOption = some c) :
    Project.load disk root named = .ok ⟨root, c⟩ := by
  rw [Project.load, Config.load_of_read hread]
  split
  · rename_i c' hc
    rw [hc] at htext
    rw [Option.some.inj htext]
  · rename_i e he
    rw [he] at htext
    exact absurd htext (by simp [Except.toOption])

/-- The launcher whose programs write an empty file as their output. -/
def writeEmpty : Launcher := fun _ arguments disk =>
  let output := String.ofList ((arguments.getLast?.getD "").toList.drop "--output-file=".length)
  (.ok ⟨0, .empty⟩, (disk.write ⟨output⟩ .empty).2)

theorem writesOnly_writeEmpty : writeEmpty.WritesOnly := by
  intro program arguments output disk
  have houtput : String.ofList
      (((arguments ++ ["--output-file=" ++ output]).getLast?.getD "").toList.drop
        "--output-file=".length) = output := by
    rw [List.getLast?_concat, Option.getD_some, String.toList_append, ← String.length_toList,
      List.drop_left, String.ofList_toList]
  rw [writeEmpty, houtput]
  exact disk.exists_changesOnly_write ⟨output⟩ .empty

/-- The request to write what stays of the project in the current folder. -/
def smallPurge (named : Option Path) : Request := .purge ⟨⟨"."⟩, named, false⟩ defaultSubsetter

/-- A disk whose stylesheet is beside the font. -/
def plainDisk : Disk :=
  smallDisk [.mk Config.fileName (.file (Text.encode (smallText "i.css"))),
    .mk "i.css" (.file (Text.encode smallCss))]

/-- The stylesheet beside the font is kept by a purge, a scan and a purge. -/
theorem kept_performAll_plainDisk :
    plainDisk.root.NoLinks ∧
      Project.load plainDisk ⟨"."⟩ none = .ok ⟨⟨"."⟩, smallConfig "i.css"⟩ ∧
      writeEmpty.WritesOnly ∧
      (performAll plainDisk [(writeEmpty, smallPurge none),
          (writeEmpty, .scan ⟨⟨"."⟩, none, true⟩), (writeEmpty, smallPurge none)]).read ⟨"i.css"⟩ =
        .ok (Text.encode smallCss) := by
  have hlinks : plainDisk.root.NoLinks := noLinks_smallDisk noLinks_of_pair
  have hload : Project.load plainDisk ⟨"."⟩ none = .ok ⟨⟨"."⟩, smallConfig "i.css"⟩ :=
    @load_of_text _ _ _ (smallText "i.css") _ rfl (by decide +kernel)
  have hkept := @kept_performAll _ _ _ _ [(writeEmpty, smallPurge none),
    (writeEmpty, .scan ⟨⟨"."⟩, none, true⟩), (writeEmpty, smallPurge none)] hlinks hload (by simp)
    (by simp [writesOnly_writeEmpty, smallPurge, Request.IsOn])
  have hcss := hkept.2.2.2.2.2.2 (by decide +kernel)
  exact ⟨hlinks, hload, writesOnly_writeEmpty, hcss.trans rfl⟩

/-! ## A project whose inputs are written over -/

section

variable {launch : Launcher} {disk : Disk} {root : Path} {named : Option Path} {p : Project}
  {sheet : Css.Sheet}

/-- The analysis of a stylesheet plans what stays of it. -/
theorem exists_analyze (hsheet : p.readSheet disk = .ok sheet) :
    ∃ a, p.analyze disk = .ok a ∧
      a.plan = Plan.ofRetained
        (reconcile (p.scan disk).used (buildIndex sheet (p.scan disk).used)) p.fontPath p.cssPath ∧
      a.cssText = prunedCss sheet
        (reconcile (p.scan disk).used (buildIndex sheet (p.scan disk).used))
        p.config.iconPrefix := by
  refine ⟨p.analysisOf disk (p.scan disk) sheet, ?_, ?_, ?_⟩
  · unfold Project.analyze
    generalize p.readSheet disk = result at hsheet ⊢
    subst hsheet
    simp only
  · simp only [Project.analysisOf]
  · simp only [Project.analysisOf]

/-- What is on the disk after the result for a stylesheet and the classes in use is written. -/
def diskAfter (p : Project) (launch : Launcher) (program : String) (disk : Disk)
    (sheet : Css.Sheet) (used : NameSet) : Disk :=
  let retained := reconcile used (buildIndex sheet used)
  (emit (Subsetter.ofProgram launch program) (Plan.ofRetained retained p.fontPath p.cssPath)
    (prunedCss sheet retained p.config.iconPrefix) ⟨disk, ()⟩).2.disk

/-- A purge leaves the disk with the result. -/
theorem perform_purge (hload : Project.load disk root named = .ok p)
    (hsheet : p.readSheet disk = .ok sheet) (program : String) (verbose : Bool) :
    (perform launch disk (.purge ⟨root, named, verbose⟩ program)).2 =
      diskAfter p launch program disk sheet (p.scan disk).used := by
  obtain ⟨a, hanalyze, hplan, hcss⟩ := exists_analyze hsheet
  have hrun := @Project.runPurge_of_analyze Unit (Subsetter.ofProgram launch program) root named
    ⟨disk, ()⟩ p a hload hanalyze
  rw [hplan, hcss] at hrun
  exact congrArg Bench.disk hrun

end

/-- A disk whose stylesheet is where the pruned one goes, and the configuration where the smaller
font goes. -/
def nestedDisk : Disk :=
  smallDisk [.mk "i-min" (.folder [.mk "i.ttf" (.file (Text.encode (smallText "i-min/i.css"))),
    .mk "i.css" (.file (Text.encode smallCss))])]

/-- The project on the disk. -/
def nestedProject : Project := ⟨⟨"."⟩, smallConfig "i-min/i.css"⟩

/-- Where the configuration of the project is. -/
def nestedConfig : Path := ⟨"i-min/i.ttf"⟩

theorem noLinks_nestedDisk : nestedDisk.root.NoLinks := by
  refine noLinks_smallDisk fun n t ht => ?_
  simp only [List.mem_singleton, Entry.mk.injEq] at ht
  obtain ⟨-, rfl⟩ := ht
  exact Tree.noLinks_folder noLinks_of_pair

theorem load_nestedDisk : Project.load nestedDisk ⟨"."⟩ (some nestedConfig) = .ok nestedProject :=
  @load_of_text _ _ _ (smallText "i-min/i.css") _ rfl (by decide +kernel)

/-- The class to keep is in use. -/
theorem used_nestedProject :
    (nestedProject.scan nestedDisk).used = NameSet.ofList ["i-a"] := by
  have hentries : (smallConfig "i-min/i.css").entryDirs ⟨"."⟩ = [⟨"src"⟩] := by decide
  have hexcluded : (smallConfig "i-min/i.css").excludedPaths ⟨"."⟩ = [] := by decide
  have hsrc : Path.normalize ⟨"src"⟩ = ⟨"src"⟩ := by decide
  have hfind : nestedDisk.find false ⟨"src"⟩ = .ok (.folder []) := rfl
  have hfound : Scan.findSources nestedDisk [⟨"src"⟩] [] = {} := by
    simp [Scan.findSources, hsrc, Scan.Found.addEntry, Scan.entrySources, hfind, Scan.sources,
      Scan.sourcesByName, Scan.inOrder]
  rw [Project.scan, nestedProject]
  dsimp only
  rw [hentries, hexcluded, hfound]
  rfl

/-- The disk after a purge of the project. -/
def nestedDiskAfter : Disk := performAll nestedDisk [(writeEmpty, smallPurge (some nestedConfig))]

/-- The disk after a purge, for the stylesheet that is read. -/
theorem exists_nestedDiskAfter_eq : ∃ sheet, nestedProject.readSheet nestedDisk = .ok sheet ∧
    nestedDiskAfter = diskAfter nestedProject writeEmpty defaultSubsetter nestedDisk sheet
      (NameSet.ofList ["i-a"]) := by
  have hthere : (nestedProject.readSheet nestedDisk).toOption.isSome = true := by decide +kernel
  cases hsheet : nestedProject.readSheet nestedDisk with
  | error e =>
    rw [hsheet] at hthere
    exact absurd hthere (by simp [Except.toOption])
  | ok sheet =>
    refine ⟨sheet, rfl, ?_⟩
    rw [nestedDiskAfter, performAll, List.foldl_cons, List.foldl_nil, smallPurge,
      perform_purge load_nestedDisk hsheet, used_nestedProject]

/-- The stylesheet with the glyph of the class alone. -/
def prunedSmallCss : String :=
  "/* Auto-generated minified iconfont */\n\n\n\n.i-a:before\x7bcontent:\"\\e601\"\x7d"

/-- What is read of the inputs after the purge. -/
theorem readText_nestedDiskAfter :
    (nestedDiskAfter.readText nestedProject.cssPath).toOption =
        some prunedSmallCss ∧
      (nestedDiskAfter.readText (Config.path ⟨"."⟩ (some nestedConfig))).toOption = some "" := by
  have hread : (nestedProject.readSheet nestedDisk).toOption.map (fun sheet =>
      let after := diskAfter nestedProject writeEmpty defaultSubsetter nestedDisk sheet
        (NameSet.ofList ["i-a"])
      ((after.readText nestedProject.cssPath).toOption,
        (after.readText (Config.path ⟨"."⟩ (some nestedConfig))).toOption)) =
      some (some prunedSmallCss, some "") := by
    decide +kernel
  obtain ⟨sheet, hsheet, hafter⟩ := exists_nestedDiskAfter_eq
  rw [hsheet] at hread
  have hpair := Option.some.inj hread
  rw [hafter]
  exact ⟨congrArg Prod.fst hpair, congrArg Prod.snd hpair⟩

/-- **Inputs can be written over**: the stylesheet is not kept where it is at the place of the
pruned one, and the configuration is not where it is at the place of the smaller font. -/
theorem not_forall_read_inputs :
    (¬ ∀ (disk : Disk) (root : Path) (named : Option Path) (p : Project)
      (runs : List (Launcher × Request)), disk.root.NoLinks →
      Project.load disk root named = .ok p → (∀ r ∈ runs, r.1.WritesOnly ∧ r.2.IsOn root named) →
      (performAll disk runs).read p.cssPath = disk.read p.cssPath) ∧
    ¬ ∀ (disk : Disk) (root : Path) (named : Option Path) (p : Project)
      (runs : List (Launcher × Request)), disk.root.NoLinks →
      Project.load disk root named = .ok p → (∀ r ∈ runs, r.1.WritesOnly ∧ r.2.IsOn root named) →
      (performAll disk runs).read (Config.path root named) =
        disk.read (Config.path root named) := by
  have hruns : ∀ r ∈ [(writeEmpty, smallPurge (some nestedConfig))],
      r.1.WritesOnly ∧ r.2.IsOn ⟨"."⟩ (some nestedConfig) := by
    simp [writesOnly_writeEmpty, smallPurge, Request.IsOn]
  obtain ⟨hcss, hconfig⟩ := readText_nestedDiskAfter
  constructor <;> intro h
  · have hkept : nestedDiskAfter.read nestedProject.cssPath =
        nestedDisk.read nestedProject.cssPath :=
      h nestedDisk ⟨"."⟩ (some nestedConfig) nestedProject _ noLinks_nestedDisk load_nestedDisk
        hruns
    rw [Disk.readText, hkept, ← Disk.readText] at hcss
    exact absurd hcss (by decide +kernel)
  · have hkept : nestedDiskAfter.read (Config.path ⟨"."⟩ (some nestedConfig)) =
        nestedDisk.read (Config.path ⟨"."⟩ (some nestedConfig)) :=
      h nestedDisk ⟨"."⟩ (some nestedConfig) nestedProject _ noLinks_nestedDisk load_nestedDisk
        hruns
    rw [Disk.readText, hkept, ← Disk.readText] at hconfig
    exact absurd hconfig (by decide +kernel)

end CommandLine

end GlyphTrim
