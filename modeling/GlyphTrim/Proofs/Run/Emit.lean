import GlyphTrim.Proofs.Disk.Change
import GlyphTrim.Run.Emit

/-!
# The order in which the result is written

A subsetter that keeps a log of its calls shows when it is called, how often, and what the disk
was like then (`logged`). `Emits` tells the five ways in which a run that writes the result can go,
and `emits_emit` that every run goes one of them: the folder is made first, then the subsetter is
called once, and only after it succeeded the stylesheet is written.
-/

namespace GlyphTrim

open Glyph

variable {σ : Type}

/-! ## Subsetters with a log -/

/-- What a subsetter keeps for itself, with its calls so far: each request, and the disk then. -/
structure Log (σ : Type) where
  tool : σ
  calls : List (SubsetRequest × Disk) := []

/-- The subsetter that also notes each of its calls. -/
def logged (subset : Subsetter σ) : Subsetter (Log σ) := fun request bench =>
  let (result, after) := subset request ⟨bench.disk, bench.tool.tool⟩
  (result, ⟨after.disk, after.tool, bench.tool.calls ++ [(request, bench.disk)]⟩)

/-- The bench without the log. -/
def Bench.unlogged (bench : Bench (Log σ)) : Bench σ := ⟨bench.disk, bench.tool.tool⟩

/-- The log changes nothing. -/
theorem emit_unlogged (subset : Subsetter σ) (plan : Plan) (cssText : String)
    (bench : Bench (Log σ)) :
    emit subset plan cssText bench.unlogged =
      ((emit (logged subset) plan cssText bench).1,
        (emit (logged subset) plan cssText bench).2.unlogged) := by
  rw [emit, emit]
  split
  · rfl
  simp only [Bench.unlogged]
  cases bench.disk.makeFolders plan.outputDir with
  | mk made ready =>
    cases made with
    | error e => rfl
    | ok _ =>
      simp only [logged]
      cases subset plan.request ⟨ready, bench.tool.tool⟩ with
      | mk result left =>
        cases result with
        | error e => rfl
        | ok font =>
          simp only [writeSheet]
          cases left.disk.write plan.cssPath (Text.encode cssText) with
          | mk wrote disk => cases wrote <;> rfl

/-! ## The ways a run goes -/

/-- The request for all characters of a plan. -/
def requestFor (plan : Plan) : SubsetRequest :=
  ⟨plan.fontPath, plan.outputDir, String.ofList (plan.glyphs.map (·.2))⟩

/-- How a run that writes the result ends and what it leaves behind. -/
inductive Emits (subset : Subsetter σ) (plan : Plan) (cssText : String) (disk : Disk) (tool : σ) :
    Except RunError EmitOutcome → Bench (Log σ) → Prop
  /-- No glyph stays, and nothing is done. -/
  | skipped : plan.glyphs = [] →
      Emits subset plan cssText disk tool (.ok .skipped) ⟨disk, tool, []⟩
  /-- The folder cannot be made, and the subsetter is not called. -/
  | unprepared {e ready} : plan.glyphs ≠ [] →
      disk.makeFolders plan.outputDir = (.error e, ready) →
      Emits subset plan cssText disk tool (.error (.subset (.outputDir plan.outputDir e)))
        ⟨ready, tool, []⟩
  /-- The subsetter is called and fails, and all stays as it leaves it. -/
  | refused {ready e left} : plan.glyphs ≠ [] →
      disk.makeFolders plan.outputDir = (.ok (), ready) →
      subset (requestFor plan) ⟨ready, tool⟩ = (.error e, left) →
      Emits subset plan cssText disk tool (.error (.subset e))
        ⟨left.disk, left.tool, [(requestFor plan, ready)]⟩
  /-- The subsetter is called and succeeds, and the stylesheet cannot be written. -/
  | unwritable {ready font left e} : plan.glyphs ≠ [] →
      disk.makeFolders plan.outputDir = (.ok (), ready) →
      subset (requestFor plan) ⟨ready, tool⟩ = (.ok font, left) →
      left.disk.write plan.cssPath (Text.encode cssText) = (.error e, left.disk) →
      Emits subset plan cssText disk tool (.error (.unwritable plan.cssPath e))
        ⟨left.disk, left.tool, [(requestFor plan, ready)]⟩
  /-- The subsetter is called and succeeds, and the stylesheet is written. -/
  | written {ready font left done} : plan.glyphs ≠ [] →
      disk.makeFolders plan.outputDir = (.ok (), ready) →
      subset (requestFor plan) ⟨ready, tool⟩ = (.ok font, left) →
      left.disk.write plan.cssPath (Text.encode cssText) = (.ok (), done) →
      Emits subset plan cssText disk tool (.ok (.written font plan.cssPath))
        ⟨done, left.tool, [(requestFor plan, ready)]⟩

section

variable {subset : Subsetter σ} {plan : Plan} {cssText : String} {disk : Disk} {tool : σ}

/-- Every run goes one of the ways. -/
theorem emits_logged (subset : Subsetter σ) (plan : Plan) (cssText : String) (disk : Disk)
    (tool : σ) :
    Emits subset plan cssText disk tool (emit (logged subset) plan cssText ⟨disk, tool, []⟩).1
      (emit (logged subset) plan cssText ⟨disk, tool, []⟩).2 := by
  have hempty : plan.isEmpty = true ↔ plan.glyphs = [] := List.isEmpty_iff
  have hrequest : plan.request = requestFor plan := rfl
  rw [emit]
  split
  · rename_i h
    exact .skipped (hempty.1 h)
  rename_i h
  have hglyphs : plan.glyphs ≠ [] := mt hempty.2 h
  cases hmake : disk.makeFolders plan.outputDir with
  | mk made ready =>
    cases made with
    | error e => exact .unprepared hglyphs hmake
    | ok _ =>
      simp only [logged, hrequest, List.nil_append]
      cases hsubset : subset (requestFor plan) ⟨ready, tool⟩ with
      | mk result left =>
        cases result with
        | error e => exact .refused hglyphs hmake hsubset
        | ok font =>
          simp only [writeSheet]
          cases hwrite : left.disk.write plan.cssPath (Text.encode cssText) with
          | mk wrote done =>
            cases wrote with
            | ok _ => exact .written hglyphs hmake hsubset hwrite
            | error e =>
              have hsame := Disk.write_eq_of_error (congrArg Prod.fst hwrite)
              rw [hwrite] at hsame
              obtain rfl : done = left.disk := hsame
              exact .unwritable hglyphs hmake hsubset hwrite

theorem Emits.written_iff {result : Except RunError EmitOutcome} {after : Bench (Log σ)}
    (h : Emits subset plan cssText disk tool result after) (font cssPath : Path) :
    result = .ok (.written font cssPath) ↔ cssPath = plan.cssPath ∧ plan.glyphs ≠ [] ∧
      ∃ ready left, disk.makeFolders plan.outputDir = (.ok (), ready) ∧
        subset (requestFor plan) ⟨ready, tool⟩ = (.ok font, left) ∧
        (left.disk.write plan.cssPath (Text.encode cssText)).1 = .ok () := by
  cases h with
  | skipped hglyphs => simp [hglyphs]
  | unprepared hglyphs hmake => simp [hmake]
  | refused hglyphs hmake hsubset =>
    simp only [reduceCtorEq, false_iff]
    rintro ⟨-, -, ready, left, hmake', hsubset', -⟩
    rw [hmake, Prod.mk.injEq] at hmake'
    obtain ⟨-, rfl⟩ := hmake'
    rw [hsubset] at hsubset'
    exact absurd hsubset' (by simp)
  | unwritable hglyphs hmake hsubset hwrite =>
    simp only [reduceCtorEq, false_iff]
    rintro ⟨-, -, ready, left, hmake', hsubset', hwrite'⟩
    rw [hmake, Prod.mk.injEq] at hmake'
    obtain ⟨-, rfl⟩ := hmake'
    rw [hsubset, Prod.mk.injEq] at hsubset'
    obtain ⟨-, rfl⟩ := hsubset'
    rw [hwrite] at hwrite'
    exact absurd hwrite' (by simp)
  | written hglyphs hmake hsubset hwrite =>
    simp only [Except.ok.injEq, EmitOutcome.written.injEq]
    constructor
    · rintro ⟨rfl, rfl⟩
      exact ⟨rfl, hglyphs, _, _, hmake, hsubset, by rw [hwrite]⟩
    · rintro ⟨rfl, -, ready, left, hmake', hsubset', -⟩
      rw [hmake, Prod.mk.injEq] at hmake'
      obtain ⟨-, rfl⟩ := hmake'
      rw [hsubset, Prod.mk.injEq, Except.ok.injEq] at hsubset'
      exact ⟨hsubset'.1, rfl⟩

/-- What was written can be read. -/
theorem Emits.read_of_written {font cssPath : Path} {after : Bench (Log σ)}
    (h : Emits subset plan cssText disk tool (.ok (.written font cssPath)) after) :
    after.disk.read plan.cssPath = .ok (Text.encode cssText) := by
  cases h with
  | written hglyphs hmake hsubset hwrite =>
    have hread := Disk.read_write (congrArg Prod.fst hwrite)
    rwa [hwrite] at hread

end

/-- **The result is written in order**, whatever the plan, the disk and the subsetter. The run goes
one of the five ways; up to the call of the subsetter there are no other changes than new folders,
so the stylesheet in particular is as it was; and the result is written exactly if all steps
succeed, and is there then. -/
theorem emits_emit (subset : Subsetter σ) (plan : Plan) (cssText : String) (disk : Disk)
    (tool : σ) :
    let run := emit (logged subset) plan cssText ⟨disk, tool, []⟩
    let made := disk.makeFolders plan.outputDir
    emit subset plan cssText ⟨disk, tool⟩ = (run.1, run.2.unlogged) ∧
    Emits subset plan cssText disk tool run.1 run.2 ∧
    disk.AddsFolders made.2 ∧
    (∀ bytes, disk.read plan.cssPath = .ok bytes → made.2.read plan.cssPath = .ok bytes) ∧
    (plan.outputDir.text ≠ "" → made.1 = .ok () → made.2.hasFolder plan.outputDir = true) ∧
    ∀ font cssPath,
      (run.1 = .ok (.written font cssPath) ↔ cssPath = plan.cssPath ∧ plan.glyphs ≠ [] ∧
        ∃ ready left, made = (.ok (), ready) ∧
          subset (requestFor plan) ⟨ready, tool⟩ = (.ok font, left) ∧
          (left.disk.write plan.cssPath (Text.encode cssText)).1 = .ok ()) ∧
      (run.1 = .ok (.written font cssPath) →
        run.2.disk.read plan.cssPath = .ok (Text.encode cssText)) := by
  intro run made
  have hemits : Emits subset plan cssText disk tool run.1 run.2 :=
    emits_logged subset plan cssText disk tool
  have hadds : disk.AddsFolders made.2 := disk.addsFolders_makeFolders plan.outputDir
  refine ⟨emit_unlogged subset plan cssText ⟨disk, tool, []⟩, hemits, hadds, fun _ => hadds.read,
    Disk.hasFolder_makeFolders, fun font cssPath => ⟨hemits.written_iff font cssPath, ?_⟩⟩
  intro hwritten
  rw [hwritten] at hemits
  exact hemits.read_of_written

/-- A disk with a font. -/
def fontDisk : Disk := ⟨.folder [.mk "i.ttf" (.file .empty)], []⟩

/-- The plan to keep one glyph. -/
def onePlan : Plan := Plan.ofRetained (NameMap.empty.insert "i-a" "\\e601") ⟨"i.ttf"⟩ ⟨"i.css"⟩

/-- The subsetter that writes an empty font. -/
def emptyFont : Subsetter Unit := fun request bench =>
  (.ok request.outputFontPath,
    { bench with disk := (bench.disk.write request.outputFontPath .empty).2 })

/-- The glyph is kept in a folder that was not there. -/
theorem emits_emit_onePlan :
    onePlan.outputDir.text ≠ "" ∧
      (emit (logged emptyFont) onePlan "" ⟨fontDisk, (), []⟩).1 =
        .ok (.written ⟨"i-min/i.ttf"⟩ ⟨"i-min/i.css"⟩) ∧
      (emit (logged emptyFont) onePlan "" ⟨fontDisk, (), []⟩).2.disk.read ⟨"i-min/i.css"⟩ =
        .ok (Text.encode "") := by
  obtain ⟨-, -, -, -, -, hwritten⟩ := emits_emit emptyFont onePlan "" fontDisk ()
  have hlaw := hwritten ⟨"i-min/i.ttf"⟩ ⟨"i-min/i.css"⟩
  have hresult := hlaw.1.2
    ⟨rfl, by decide, (fontDisk.makeFolders ⟨"i-min"⟩).2, _, rfl, rfl, rfl⟩
  exact ⟨by decide, hresult, hlaw.2 hresult⟩

end GlyphTrim
