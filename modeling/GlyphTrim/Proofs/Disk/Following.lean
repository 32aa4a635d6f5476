import GlyphTrim.Proofs.Disk.View
import GlyphTrim.Proofs.Path.Normal

/-!
# Where paths lead

Pieces are followed one after another up to a link (`Disk.Follows`), and then on from where the link
points (`Disk.LeadsTo`). A path that can be followed leads to the same location as long as folders
stay folders and links stay as they are (`Disk.locate_of_keepsWays`), and at that location there is
a place for a file or a folder (`Disk.isIn_of_locate`).
-/

namespace GlyphTrim

namespace Disk

/-! ## Following pieces -/

/-- Pieces are followed from a location to a halt, piece by piece. -/
inductive Follows (root : Tree) (last : Bool) : Location → List String → Halt → Prop
  | done (here : Location) : Follows root last here [] (.at here)
  | dot {here rest halt} : root.thing? here = some .folder → Follows root last here rest halt →
      Follows root last here ("." :: rest) halt
  | dots {here rest halt} : root.thing? here = some .folder →
      Follows root last here.dropLast rest halt → Follows root last here (".." :: rest) halt
  | name {here piece rest halt} : root.thing? here = some .folder → piece ≠ "." → piece ≠ ".." →
      piece.utf8ByteSize ≤ nameBound →
      (∀ target, root.thing? (here ++ [piece]) ≠ some (.link target)) →
      Follows root last (here ++ [piece]) rest halt → Follows root last here (piece :: rest) halt
  | lastLink {here piece target} : root.thing? here = some .folder → piece ≠ "." → piece ≠ ".." →
      piece.utf8ByteSize ≤ nameBound → root.thing? (here ++ [piece]) = some (.link target) →
      last = false → Follows root last here [piece] (.at (here ++ [piece]))
  | link {here piece target rest} : root.thing? here = some .folder → piece ≠ "." → piece ≠ ".." →
      piece.utf8ByteSize ≤ nameBound → root.thing? (here ++ [piece]) = some (.link target) →
      ¬ (rest = [] ∧ last = false) → Follows root last here (piece :: rest) (.link here target rest)

section

variable {root root' : Tree} {last : Bool} {here : Location} {piece : String}
  {pieces rest : List String} {halt : Halt}

theorem followToLink_cons_of_folder (h : root.thing? here = some .folder) :
    followToLink root last here (piece :: rest) =
      if piece = "." then followToLink root last here rest
      else if piece = ".." then followToLink root last here.dropLast rest
      else if nameBound < piece.utf8ByteSize then .error .nameTooLong
      else
        match root.thing? (here ++ [piece]) with
        | some (.link target) =>
          if rest.isEmpty && !last then .ok (.at (here ++ [piece]))
          else .ok (.link here target rest)
        | _ => followToLink root last (here ++ [piece]) rest := by
  obtain ⟨entries, hentries⟩ := Tree.thing?_eq_folder_iff.1 h
  rw [followToLink, hentries]
  simp only [Tree.thing?]
  cases root.at? (here ++ [piece]) with
  | none => rfl
  | some u => cases u <;> rfl

theorem folder_of_followToLink (h : followToLink root last here (piece :: rest) = .ok halt) :
    root.thing? here = some .folder := by
  rw [followToLink] at h
  rw [Tree.thing?]
  cases hhere : root.at? here with
  | none => simp [hhere] at h
  | some u =>
    rw [hhere] at h
    cases u with
    | folder entries => rfl
    | file bytes => simp at h
    | link target => simp at h

theorem Follows.of_followToLink (h : followToLink root last here pieces = .ok halt) :
    Follows root last here pieces halt := by
  induction pieces generalizing here with
  | nil =>
    obtain rfl := Except.ok.inj h
    exact .done here
  | cons piece rest ih =>
    have hfolder := folder_of_followToLink h
    rw [followToLink_cons_of_folder hfolder] at h
    split at h
    · rename_i hdot
      exact hdot ▸ .dot hfolder (ih h)
    split at h
    · rename_i hdots
      exact hdots ▸ .dots hfolder (ih h)
    split at h
    · exact absurd h (by simp)
    rename_i hdot hdots hlong
    have hshort := Nat.le_of_not_lt hlong
    split at h
    · rename_i target htarget
      split at h
      · rename_i hend
        obtain ⟨rfl, hlast⟩ : rest = [] ∧ last = false := by simpa using hend
        obtain rfl := Except.ok.inj h
        exact .lastLink hfolder hdot hdots hshort htarget hlast
      · rename_i hend
        obtain rfl := Except.ok.inj h
        exact .link hfolder hdot hdots hshort htarget (by simpa using hend)
    · rename_i hlink
      exact .name hfolder hdot hdots hshort (fun target htarget => hlink target htarget) (ih h)

theorem Follows.followToLink_eq (h : Follows root last here pieces halt) :
    followToLink root last here pieces = .ok halt := by
  induction h with
  | done here => rfl
  | dot hfolder _ ih => rw [followToLink_cons_of_folder hfolder, if_pos rfl, ih]
  | dots hfolder _ ih =>
    rw [followToLink_cons_of_folder hfolder, if_neg (by decide), if_pos rfl, ih]
  | name hfolder hdot hdots hshort hlink _ ih =>
    rw [followToLink_cons_of_folder hfolder, if_neg hdot, if_neg hdots,
      if_neg (Nat.not_lt.2 hshort)]
    split
    · rename_i target htarget
      exact absurd htarget (hlink target)
    · exact ih
  | lastLink hfolder hdot hdots hshort htarget hlast =>
    rw [followToLink_cons_of_folder hfolder, if_neg hdot, if_neg hdots,
      if_neg (Nat.not_lt.2 hshort), htarget]
    simp [hlast]
  | link hfolder hdot hdots hshort htarget hend =>
    rw [followToLink_cons_of_folder hfolder, if_neg hdot, if_neg hdots,
      if_neg (Nat.not_lt.2 hshort), htarget]
    simp [hend]

/-- Pieces come to the same halt where folders stay folders and links stay as they are. -/
theorem Follows.of_keepsWays (hkeeps : root.KeepsWays root')
    (h : Follows root last here pieces halt) : Follows root' last here pieces halt := by
  induction h with
  | done here => exact .done here
  | dot hfolder _ ih => exact .dot (hkeeps.folder _ hfolder) ih
  | dots hfolder _ ih => exact .dots (hkeeps.folder _ hfolder) ih
  | name hfolder hdot hdots hshort hlink _ ih =>
    refine .name (hkeeps.folder _ hfolder) hdot hdots hshort (fun target htarget => ?_) ih
    exact hlink target ((hkeeps.link _ target).1 htarget)
  | lastLink hfolder hdot hdots hshort htarget hlast =>
    exact .lastLink (hkeeps.folder _ hfolder) hdot hdots hshort ((hkeeps.link _ _).2 htarget) hlast
  | link hfolder hdot hdots hshort htarget hend =>
    exact .link (hkeeps.folder _ hfolder) hdot hdots hshort ((hkeeps.link _ _).2 htarget) hend

/-- A halt at a place for something, and at no link if links at the end are followed, or in front
of a link in a folder. -/
def Halt.IsIn (root : Tree) (last : Bool) : Halt → Prop
  | .at l => root.HasPlace l ∧ (last = true → ∀ target, root.thing? l ≠ some (.link target))
  | .link folder _ _ => root.thing? folder = some .folder

theorem Halt.isIn_of_folder {l : Location} (h : root.thing? l = some .folder) :
    (Halt.at l).IsIn root last :=
  ⟨.of_folder h, fun _ target => by rw [h]; simp⟩

/-- Pieces that are followed from a folder come to a halt in the tree. -/
theorem Follows.isIn (h : Follows root last here pieces halt)
    (hstart : pieces = [] → (Halt.at here).IsIn root last) : halt.IsIn root last := by
  induction h with
  | done here => exact hstart rfl
  | dot hfolder _ ih => exact ih fun _ => Halt.isIn_of_folder hfolder
  | dots hfolder _ ih => exact ih fun _ => Halt.isIn_of_folder (Tree.thing?_dropLast hfolder)
  | name hfolder _ _ _ hlink _ ih =>
    exact ih fun _ => ⟨Tree.hasPlace_append hfolder _, fun _ => hlink⟩
  | lastLink hfolder _ _ _ _ hlast => exact ⟨Tree.hasPlace_append hfolder _, by simp [hlast]⟩
  | link hfolder => exact hfolder

/-- Where no link stands at the end, it makes no difference whether it would be followed. -/
theorem Follows.of_not_last {last' : Bool} (h : Follows root false here pieces halt)
    (hlink : ∀ l, halt = .at l → ∀ target, root.thing? l ≠ some (.link target)) :
    Follows root last' here pieces halt := by
  induction h with
  | done here => exact .done here
  | dot hfolder _ ih => exact .dot hfolder (ih hlink)
  | dots hfolder _ ih => exact .dots hfolder (ih hlink)
  | name hfolder hdot hdots hshort hno _ ih => exact .name hfolder hdot hdots hshort hno (ih hlink)
  | lastLink _ _ _ _ htarget => exact absurd htarget (hlink _ rfl _)
  | link hfolder hdot hdots hshort htarget hend =>
    exact .link hfolder hdot hdots hshort htarget fun h => hend ⟨h.1, rfl⟩

/-! ## Following links -/

/-- Pieces are followed to a location, over so many links at most. -/
inductive LeadsTo (root : Tree) (last : Bool) (l : Location) : Nat → Location → List String → Prop
  | here {links here pieces} : Follows root last here pieces (.at l) →
      LeadsTo root last l links here pieces
  | link {links here pieces folder target rest} :
      Follows root last here pieces (.link folder target rest) →
      LeadsTo root last l links (startOf folder target)
        (steps target ++ (if asksFolder target then ["."] else []) ++ rest) →
      LeadsTo root last l (links + 1) here pieces

variable {links : Nat} {l : Location}

theorem LeadsTo.of_follow (h : follow root last links here pieces = .ok l) :
    LeadsTo root last l links here pieces := by
  induction links generalizing here pieces with
  | zero =>
    rw [follow] at h
    split at h
    · exact absurd h (by simp)
    · rename_i k hk
      obtain rfl := Except.ok.inj h
      exact .here (.of_followToLink hk)
    · exact absurd h (by simp)
  | succ links ih =>
    rw [follow] at h
    split at h
    · exact absurd h (by simp)
    · rename_i k hk
      obtain rfl := Except.ok.inj h
      exact .here (.of_followToLink hk)
    · rename_i folder target rest hhalt
      exact .link (.of_followToLink hhalt) (ih h)

theorem LeadsTo.follow_eq (h : LeadsTo root last l links here pieces) :
    follow root last links here pieces = .ok l := by
  induction h with
  | here hhere =>
    rw [follow]
    simp only [hhere.followToLink_eq]
  | link hhalt _ ih =>
    rw [follow]
    simp only [hhalt.followToLink_eq]
    exact ih

theorem leadsTo_iff :
    LeadsTo root last l links here pieces ↔ follow root last links here pieces = .ok l :=
  ⟨LeadsTo.follow_eq, LeadsTo.of_follow⟩

theorem LeadsTo.of_keepsWays (hkeeps : root.KeepsWays root')
    (h : LeadsTo root last l links here pieces) : LeadsTo root' last l links here pieces := by
  induction h with
  | here hhere => exact .here (hhere.of_keepsWays hkeeps)
  | link hhalt _ ih => exact .link (hhalt.of_keepsWays hkeeps) ih

theorem LeadsTo.of_not_last {last' : Bool} (h : LeadsTo root false l links here pieces)
    (hlink : ∀ target, root.thing? l ≠ some (.link target)) :
    LeadsTo root last' l links here pieces := by
  induction h with
  | here hhere =>
    refine .here (hhere.of_not_last ?_)
    rintro k hk target
    obtain rfl := Halt.at.inj hk
    exact hlink target
  | link hhalt _ ih => exact .link (hhalt.of_not_last (by simp)) ih

/-- A link leads on from its folder, or from the outside. -/
theorem folder_startOf (h : root.thing? here = some .folder) (target : Path) :
    root.thing? (startOf here target) = some .folder := by
  unfold startOf
  split
  · exact Tree.thing?_nil_of_folder h
  · exact h

theorem LeadsTo.isIn (h : LeadsTo root last l links here pieces)
    (hstart : pieces = [] → (Halt.at here).IsIn root last) : (Halt.at l).IsIn root last := by
  induction h with
  | here hhere => exact hhere.isIn hstart
  | @link links here pieces folder target rest hhalt _ ih =>
    have hfolder : root.thing? folder = some .folder := hhalt.isIn hstart
    exact ih fun _ => Halt.isIn_of_folder (folder_startOf hfolder target)

end

/-! ## Locations of paths -/

/-- A path without pieces is a row of slashes. -/
theorem asksFolder_of_steps_eq_nil {p : Path} (hp : p.text ≠ "") (h : steps p = []) :
    p.isAbsolute = true ∧ asksFolder p = true := by
  have hslash : ∀ cs : List Char, (∀ piece ∈ Path.pieces cs, piece = []) → ∀ c ∈ cs, c = '/' := by
    intro cs
    induction cs with
    | nil => simp
    | cons c cs ih =>
      intro hpieces
      have hne := Path.pieces_eq_splitOn cs ▸ List.splitOn_ne_nil '/' cs
      obtain ⟨piece, more, hcs⟩ := List.exists_cons_of_ne_nil hne
      rw [Path.pieces, hcs] at hpieces
      rw [hcs] at ih
      by_cases hc : c = '/'
      · subst hc
        have hrest := ih (by simpa using hpieces)
        simpa using hrest
      · simp [hc] at hpieces
  have hpieces : ∀ piece ∈ Path.pieces p.text.toList, piece = [] := by
    simpa [steps, List.filter_eq_nil_iff] using h
  have hchars := hslash _ hpieces
  have hne : p.text.toList ≠ [] := by simpa using hp
  constructor
  · obtain ⟨c, cs, hcs⟩ := List.exists_cons_of_ne_nil hne
    rw [Path.isAbsolute, hcs, hchars c (by simp [hcs])]
    rfl
  · rw [asksFolder, List.getLast?_eq_some_getLast hne, hchars _ (List.getLast_mem hne)]
    rfl

section

variable {d d' : Disk} {last : Bool} {p : Path} {l : Location}

theorem locate_eq_ok_iff : d.locate last p = .ok l ↔
    (Char.ofNat 0 ∉ p.text.toList ∧ p.text ≠ "" ∧ p.text.utf8ByteSize ≤ pathBound) ∧
      LeadsTo d.root last l linkBound (startOf d.current p) (steps p) := by
  rw [locate, leadsTo_iff]
  split
  · rename_i hnul
    have hnul' : Char.ofNat 0 ∈ p.text.toList := List.contains_iff_mem.1 hnul
    simp [hnul']
  · rename_i hnul
    have hnul' : Char.ofNat 0 ∉ p.text.toList := fun h => hnul (List.contains_iff_mem.2 h)
    split
    · rename_i hempty
      have hempty' : p.text = "" := by simpa using hempty
      simp [hempty']
    · rename_i hempty
      have hempty' : p.text ≠ "" := by simpa using hempty
      split
      · rename_i hlong
        simp [Nat.not_le.2 hlong]
      · rename_i hlong
        simp [hnul', hempty', Nat.le_of_not_lt hlong]

/-- **A path leads to the same location** where folders stay folders and links stay as they are. -/
theorem locate_of_keepsWays (hkeeps : d.root.KeepsWays d'.root) (hcurrent : d'.current = d.current)
    (h : d.locate last p = .ok l) : d'.locate last p = .ok l := by
  obtain ⟨hp, hleads⟩ := locate_eq_ok_iff.1 h
  exact locate_eq_ok_iff.2 ⟨hp, hcurrent ▸ hleads.of_keepsWays hkeeps⟩

theorem locate_of_not_last {last' : Bool} (h : d.locate false p = .ok l)
    (hlink : ∀ target, d.root.thing? l ≠ some (.link target)) : d.locate last' p = .ok l := by
  obtain ⟨hp, hleads⟩ := locate_eq_ok_iff.1 h
  exact locate_eq_ok_iff.2 ⟨hp, hleads.of_not_last hlink⟩

/-- A path leads to a place for something, or it is a row of slashes. -/
theorem isIn_of_locate (h : d.locate last p = .ok l) :
    (Halt.at l).IsIn d.root last ∨ l = [] ∧ asksFolder p = true := by
  obtain ⟨⟨-, hne, -⟩, hleads⟩ := locate_eq_ok_iff.1 h
  by_cases hsteps : steps p = []
  · obtain ⟨habs, hslash⟩ := asksFolder_of_steps_eq_nil hne hsteps
    rw [hsteps, startOf, if_pos habs] at hleads
    obtain rfl : [] = l := by simpa [follow, followToLink] using hleads.follow_eq
    exact .inr ⟨rfl, hslash⟩
  · exact .inl (hleads.isIn fun h => absurd h hsteps)

end

end Disk

end GlyphTrim
