import GlyphTrim.Disk.Basic
import Mathlib.Data.List.Basic

/-!
# What stands where

A disk is seen location by location: there is a file, a link, a folder or nothing at each
(`Tree.thing?`). Putting something without content into a folder changes the view at its own
location alone (`Tree.thing?_put`).
-/

namespace GlyphTrim

/-- What stands at a location, without what is in it. -/
inductive Thing
  | file (bytes : ByteArray)
  | link (target : Path)
  | folder

namespace Tree

/-- The kind of a tree, without what is in it. -/
def thing : Tree → Thing
  | .file bytes => .file bytes
  | .link target => .link target
  | .folder _ => .folder

/-- What stands at a location. -/
def thing? (t : Tree) (l : Location) : Option Thing := (t.at? l).map thing

variable {t t' : Tree} {l : Location}

@[simp] theorem thing?_nil (t : Tree) : t.thing? [] = some t.thing := rfl

theorem thing?_eq_none_iff : t.thing? l = none ↔ t.at? l = none := Option.map_eq_none_iff

theorem thing?_eq_file_iff {bytes : ByteArray} :
    t.thing? l = some (.file bytes) ↔ t.at? l = some (.file bytes) := by
  rw [thing?]
  cases h : t.at? l with
  | none => simp
  | some u => cases u <;> simp [thing]

theorem thing?_eq_folder_iff :
    t.thing? l = some .folder ↔ ∃ entries, t.at? l = some (.folder entries) := by
  rw [thing?]
  cases h : t.at? l with
  | none => simp
  | some u => cases u <;> simp [thing]

theorem thing?_folder_cons (entries : List Entry) (n : String) (l : Location) :
    (Tree.folder entries).thing? (n :: l) =
      (Entry.find? n entries).bind fun t => t.thing? l := by
  rw [thing?, at?, child?]
  cases Entry.find? n entries <;> rfl

/-- Nothing stands below what is no folder. -/
theorem thing?_cons_of_not_folder (h : t.thing ≠ .folder) (n : String) (l : Location) :
    t.thing? (n :: l) = none := by
  cases t with
  | folder entries => exact absurd rfl h
  | file bytes => rfl
  | link target => rfl

/-- What something stands below is a folder. -/
theorem thing?_eq_folder_of_append {n : String} (h : t.thing? (l ++ [n]) ≠ none) :
    t.thing? l = some .folder := by
  induction l generalizing t with
  | nil =>
    cases t with
    | folder entries => rfl
    | file bytes => exact absurd rfl h
    | link target => exact absurd rfl h
  | cons m l ih =>
    cases t with
    | file bytes => exact absurd rfl h
    | link target => exact absurd rfl h
    | folder entries =>
      rw [List.cons_append, thing?_folder_cons] at h
      rw [thing?_folder_cons]
      cases hm : Entry.find? m entries with
      | none => simp [hm] at h
      | some c => exact ih (by simpa [hm] using h)

/-- **Putting something without content into a folder** changes its own location alone. -/
theorem thing?_put {n : String} {new : Tree} (hfolder : t.thing? l = some .folder)
    (hplace : t.thing? (l ++ [n]) ≠ some .folder) (hnew : ∀ k, new.child? k = none)
    (m : Location) :
    (t.put new (l ++ [n])).thing? m = if m = l ++ [n] then some new.thing else t.thing? m := by
  induction l generalizing t m with
  | nil =>
    obtain ⟨entries, h⟩ := thing?_eq_folder_iff.1 hfolder
    obtain rfl : t = .folder entries := by simpa using h
    have hput : (Tree.folder entries).put new [n] = .folder (Entry.set n new entries) := rfl
    cases m with
    | nil => rfl
    | cons k m =>
      rw [List.nil_append, hput, thing?_folder_cons, thing?_folder_cons]
      by_cases hk : k = n
      · subst hk
        rw [Entry.find?_set_self]
        cases m with
        | nil => simp
        | cons j m =>
          have hbare : new.thing? (j :: m) = none := by rw [thing?, at?, hnew j]; rfl
          cases hold : Entry.find? k entries with
          | none => simp [hbare]
          | some c =>
            have hc : c.thing ≠ .folder := by
              rw [List.nil_append, thing?_folder_cons, hold] at hplace
              simpa using hplace
            simp [hbare, thing?_cons_of_not_folder hc]
      · rw [Entry.find?_set_of_ne hk]
        simp [hk]
  | cons c l ih =>
    cases t with
    | file bytes => exact absurd hfolder (by simp [thing?, at?, child?])
    | link target => exact absurd hfolder (by simp [thing?, at?, child?])
    | folder entries =>
      rw [thing?_folder_cons] at hfolder
      rw [List.cons_append, thing?_folder_cons] at hplace
      cases hc : Entry.find? c entries with
      | none => exact absurd hfolder (by simp [hc])
      | some child =>
        have hput : (Tree.folder entries).put new (c :: (l ++ [n])) =
            .folder (Entry.set c (child.put new (l ++ [n])) entries) := by simp [put, hc]
        rw [hc] at hfolder hplace
        cases m with
        | nil => rw [List.cons_append, hput]; rfl
        | cons k m =>
          rw [List.cons_append, hput, thing?_folder_cons, thing?_folder_cons]
          by_cases hk : k = c
          · subst hk
            rw [Entry.find?_set_self, hc]
            simpa using ih hfolder hplace m
          · rw [Entry.find?_set_of_ne hk]
            simp [hk]

/-- A place for a file or a folder: a folder is there, or around it. -/
def HasPlace (t : Tree) (l : Location) : Prop :=
  t.thing? l = some .folder ∨ ∃ parent n, l = parent ++ [n] ∧ t.thing? parent = some .folder

theorem HasPlace.of_folder (h : t.thing? l = some .folder) : t.HasPlace l := .inl h

theorem hasPlace_append (h : t.thing? l = some .folder) (n : String) : t.HasPlace (l ++ [n]) :=
  .inr ⟨l, n, rfl, h⟩

/-- The folders around a folder are folders. -/
theorem thing?_dropLast (h : t.thing? l = some .folder) : t.thing? l.dropLast = some .folder := by
  rcases l.eq_nil_or_concat with rfl | ⟨l, n, rfl⟩
  · exact h
  · rw [List.concat_eq_append] at h ⊢
    rw [List.dropLast_concat]
    exact thing?_eq_folder_of_append (by rw [h]; simp)

/-- There is a folder at the outside if there is one anywhere. -/
theorem thing?_nil_of_folder (h : t.thing? l = some .folder) : t.thing? [] = some .folder := by
  cases t with
  | folder entries => rfl
  | file bytes => cases l <;> exact absurd h (by simp [thing?, at?, child?, thing])
  | link target => cases l <;> exact absurd h (by simp [thing?, at?, child?, thing])

/-- Every folder of a tree is one in another tree, and the links are the same. -/
structure KeepsWays (t t' : Tree) : Prop where
  folder : ∀ l, t.thing? l = some .folder → t'.thing? l = some .folder
  link : ∀ l target, t'.thing? l = some (.link target) ↔ t.thing? l = some (.link target)

end Tree

end GlyphTrim
