import GlyphTrim.Disk.Basic
import GlyphTrim.Proofs.Path.Normal

/-!
# The names in a tree

In a real folder every entry has the name of a file or a folder, and no two have the same one
(`Tree.WellNamed`). Then a name in a folder finds the one entry with the name
(`Entry.find?_eq_some_iff`), and what is found in a tree is well-named itself
(`Disk.wellNamed_of_find`).
-/

namespace GlyphTrim

/-- The name of an entry. -/
def Entry.name : Entry → String
  | .mk name _ => name

mutual

/-- The folders in a tree give their entries distinct names of files or folders. -/
def Tree.WellNamed : Tree → Prop
  | .file _ | .link _ => True
  | .folder entries => (entries.map Entry.name).Nodup ∧ Entry.AllWellNamed entries

/-- The entries have names of files or folders, and so has what is in them. -/
def Entry.AllWellNamed : List Entry → Prop
  | [] => True
  | .mk name tree :: rest => Path.IsFileName name ∧ tree.WellNamed ∧ Entry.AllWellNamed rest

end

theorem Entry.AllWellNamed.of_mem {entries : List Entry} (h : Entry.AllWellNamed entries)
    {name : String} {tree : Tree} (hmem : .mk name tree ∈ entries) :
    Path.IsFileName name ∧ tree.WellNamed := by
  induction entries with
  | nil => exact absurd hmem (by simp)
  | cons e entries ih =>
    obtain ⟨n, t⟩ := e
    rw [Entry.AllWellNamed] at h
    obtain ⟨hn, ht, hrest⟩ := h
    rcases List.mem_cons.1 hmem with heq | hmem
    · obtain ⟨rfl, rfl⟩ := Entry.mk.inj heq
      exact ⟨hn, ht⟩
    · exact ih hrest hmem

/-- A name finds the entry with the name. -/
theorem Entry.find?_eq_some_iff {entries : List Entry} (h : (entries.map Entry.name).Nodup)
    {name : String} {tree : Tree} :
    Entry.find? name entries = some tree ↔ .mk name tree ∈ entries := by
  induction entries with
  | nil => simp [Entry.find?]
  | cons e entries ih =>
    obtain ⟨n, t⟩ := e
    obtain ⟨hn, hrest⟩ := List.nodup_cons.1 h
    rw [Entry.find?, List.mem_cons, Entry.mk.injEq]
    by_cases heq : n = name
    · subst heq
      have hother : .mk n tree ∉ entries := fun hmem => hn (List.mem_map.2 ⟨_, hmem, rfl⟩)
      simp only [if_true, Option.some.injEq, true_and, hother, or_false]
      exact eq_comm
    · rw [if_neg heq, ih hrest]
      simp [Ne.symm heq]

/-- What is in a well-named tree is well-named, and the names that lead there are names. -/
theorem Tree.WellNamed.of_at? {t c : Tree} {l : Location} (ht : t.WellNamed)
    (h : t.at? l = some c) : c.WellNamed ∧ ∀ n ∈ l, Path.IsFileName n := by
  induction l generalizing t with
  | nil =>
    obtain rfl := Option.some.inj h
    exact ⟨ht, by simp⟩
  | cons n l ih =>
    cases t with
    | file bytes => exact absurd h (by simp [at?, child?])
    | link target => exact absurd h (by simp [at?, child?])
    | folder entries =>
      rw [Tree.WellNamed] at ht
      cases hfind : Entry.find? n entries with
      | none => exact absurd h (by simp [at?, child?, hfind])
      | some t =>
        have hmem := (Entry.find?_eq_some_iff ht.1).1 hfind
        obtain ⟨hn, hwell⟩ := ht.2.of_mem hmem
        obtain ⟨hc, hl⟩ := ih hwell (by simpa [at?, child?, hfind] using h)
        exact ⟨hc, by simpa using ⟨hn, hl⟩⟩

/-- What a path names in a well-named tree is well-named. -/
theorem Disk.wellNamed_of_find {d : Disk} (hd : d.root.WellNamed) {last : Bool} {p : Path}
    {t : Tree} (h : d.find last p = .ok t) : t.WellNamed := by
  unfold Disk.find at h
  split at h
  · exact absurd h (by simp)
  · split at h
    · exact absurd h (by simp)
    · rename_i u hu
      split at h
      · exact absurd h (by simp)
      · obtain rfl := Except.ok.inj h
        exact (hd.of_at? hu).1

end GlyphTrim
