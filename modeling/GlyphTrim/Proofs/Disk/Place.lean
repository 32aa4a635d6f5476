import GlyphTrim.Proofs.Disk.Change
import GlyphTrim.Proofs.Path.Name

/-!
# Places of paths

On a disk without links it can be told from a path alone where it leads: its components are put
together, and two dots take the name before them away (`Disk.place`). A path that can be followed
leads to its place (`Disk.place_of_locate`).
-/

namespace GlyphTrim

/-- The location with a component more. -/
def Location.push (l : Location) : Path.Component → Location
  | .root => []
  | .current => l
  | .parent => l.dropLast
  | .name n => l ++ [n]

/-- A tree without links. -/
def Tree.NoLinks (t : Tree) : Prop := ∀ l target, t.thing? l ≠ some (.link target)

theorem Tree.NoLinks.of_keepsWays {t t' : Tree} (h : t.NoLinks) (hkeeps : t.KeepsWays t') :
    t'.NoLinks :=
  fun l target hlink => h l target ((hkeeps.link l target).1 hlink)

theorem Entry.mem_of_find? {name : String} {entries : List Entry} {t : Tree}
    (h : find? name entries = some t) : .mk name t ∈ entries := by
  induction entries with
  | nil => exact absurd h (by simp [find?])
  | cons e entries ih =>
    obtain ⟨n, u⟩ := e
    rw [find?] at h
    split at h
    · rename_i heq
      subst heq
      obtain rfl := Option.some.inj h
      exact List.mem_cons_self
    · exact List.mem_cons_of_mem _ (ih h)

theorem Tree.noLinks_file (bytes : ByteArray) : (Tree.file bytes).NoLinks := by
  intro l target
  cases l <;> simp [thing?, at?, child?, thing]

/-- A folder of trees without links has none. -/
theorem Tree.noLinks_folder {entries : List Entry}
    (h : ∀ n t, .mk n t ∈ entries → t.NoLinks) : (Tree.folder entries).NoLinks := by
  intro l target
  cases l with
  | nil => simp [thing]
  | cons n l =>
    rw [thing?_folder_cons]
    cases hn : Entry.find? n entries with
    | none => simp
    | some t => exact h n t (Entry.mem_of_find? hn) l target

namespace Disk

/-- Where a path leads from the current folder when no link is on the way. -/
def place (d : Disk) (p : Path) : Location := p.components.foldl Location.push d.current

/-! ## Following pieces without links -/

/-- The location with a piece more. -/
def stepTo (l : Location) (piece : String) : Location :=
  if piece = "." then l else if piece = ".." then l.dropLast else l ++ [piece]

theorem Follows.eq_at {root : Tree} (hlinks : root.NoLinks) {last : Bool} {here : Location}
    {pieces : List String} {halt : Halt} (h : Follows root last here pieces halt) :
    halt = .at (pieces.foldl stepTo here) := by
  induction h with
  | done here => rfl
  | dot _ _ ih => rw [ih, List.foldl_cons, stepTo, if_pos rfl]
  | dots _ _ ih => rw [ih, List.foldl_cons, stepTo, if_neg (by decide), if_pos rfl]
  | name _ hdot hdots _ _ _ ih => rw [ih, List.foldl_cons, stepTo, if_neg hdot, if_neg hdots]
  | lastLink _ _ _ _ htarget => exact absurd htarget (hlinks _ _)
  | link _ _ _ _ htarget => exact absurd htarget (hlinks _ _)

/-- The pieces that count lead where the components do. -/
theorem foldl_stepTo_pieces (ps : List (List Char)) (l : Location) :
    ((ps.filter (· != [])).map String.ofList).foldl stepTo l =
      (ps.filterMap Path.component?).foldl Location.push l := by
  induction ps generalizing l with
  | nil => rfl
  | cons piece ps ih =>
    by_cases hnil : piece = []
    · subst hnil
      exact ih l
    by_cases hdot : piece = ['.']
    · subst hdot
      exact ih l
    by_cases hdots : piece = ['.', '.']
    · subst hdots
      exact ih l.dropLast
    have hcomponent : Path.component? piece = some (.name (String.ofList piece)) := by
      simp [Path.component?, hnil, hdot, hdots]
    have hstep : stepTo l (String.ofList piece) = l ++ [String.ofList piece] := by
      have hne : String.ofList piece ≠ "." ∧ String.ofList piece ≠ ".." := by
        constructor <;> intro h
        · exact hdot (by simpa using congrArg String.toList h)
        · exact hdots (by simpa using congrArg String.toList h)
      rw [stepTo, if_neg hne.1, if_neg hne.2]
    rw [List.filter_cons, if_pos (by simpa using hnil), List.map_cons, List.foldl_cons, hstep,
      List.filterMap_cons_some hcomponent, List.foldl_cons]
    exact ih _

theorem foldl_stepTo_steps (p : Path) (l : Location) :
    (steps p).foldl stepTo (startOf l p) = p.components.foldl Location.push l := by
  rw [steps, foldl_stepTo_pieces, Path.components, List.foldl_append, startOf]
  split
  · rfl
  · split <;> rfl

variable {d : Disk} {last : Bool} {p : Path} {l : Location}

/-- **Without links a path leads to its place.** -/
theorem place_of_locate (hlinks : d.root.NoLinks) (h : d.locate last p = .ok l) :
    l = d.place p := by
  obtain ⟨-, hleads⟩ := locate_eq_ok_iff.1 h
  cases hleads with
  | here hhere =>
    rw [Halt.at.inj (hhere.eq_at hlinks), foldl_stepTo_steps]
    rfl
  | link hhalt => exact absurd (hhalt.eq_at hlinks) (by simp)

theorem place_congr {d' : Disk} (h : d'.current = d.current) (p : Path) :
    d'.place p = d.place p := by
  rw [place, place, h]

/-- What is read stands at the place of the path. -/
theorem thing?_place_of_read (hlinks : d.root.NoLinks) {bytes : ByteArray}
    (h : d.read p = .ok bytes) : d.root.thing? (d.place p) = some (.file bytes) := by
  obtain ⟨-, l, hl, hbytes⟩ := read_eq_ok_iff.1 h
  rwa [← place_of_locate hlinks hl]

/-! ## Places with names at their end -/

theorem getLast?_place {n : String} (h : p.fileName? = some n) :
    (d.place p).getLast? = some n := by
  obtain ⟨cs, hcs⟩ := List.getLast?_eq_some_iff.1 (Path.fileName?_eq_some_iff.1 h)
  rw [place, hcs, List.foldl_append]
  exact List.getLast?_concat

theorem place_toPath_cons {absolute : Bool} {n : String} {names : List String}
    (h : (⟨absolute, n :: names⟩ : Path.Folded).IsNormal) (hn : n ≠ "..") :
    d.place (Path.Folded.toPath ⟨absolute, n :: names⟩) =
      d.place (Path.Folded.toPath ⟨absolute, names⟩) ++ [n] := by
  rw [place, place, h.components_toPath, h.tail.components_toPath, List.reverse_cons,
    List.map_append, ← List.append_assoc, List.foldl_append]
  simp [Path.Component.ofName, hn, Location.push]

end Disk

end GlyphTrim
