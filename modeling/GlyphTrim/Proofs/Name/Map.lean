import GlyphTrim.Name.Map
import Mathlib.Data.List.Nodup
import Mathlib.Data.List.Perm.Subperm
import Mathlib.Data.List.Sort

/-!
# Looking up names

What `find?` gives after each operation on maps, and that a map is known from what it finds
(`NameMap.ext_find?`).
-/

namespace GlyphTrim

variable {α : Type}

theorem lookup_cons_eq (k j : String) (v : α) (es : List (String × α)) :
    ((k, v) :: es).lookup j = if j = k then some v else es.lookup j := by
  rw [List.lookup_cons]
  by_cases hj : j = k
  · simp [hj]
  · have hbeq : (j == k) = false := by simpa using hj
    rw [hbeq, if_neg hj]

theorem lookup_insertEntry (k j : String) (v : α) (es : List (String × α)) :
    (insertEntry k v es).lookup j = if j = k then some v else es.lookup j := by
  induction es with
  | nil => rw [insertEntry, lookup_cons_eq]
  | cons e es ih =>
    obtain ⟨k', v'⟩ := e
    unfold insertEntry
    split
    · rw [lookup_cons_eq]
    · split
      · rename_i heq
        subst heq
        rw [lookup_cons_eq, lookup_cons_eq]
        split <;> rfl
      · rename_i hne
        rw [lookup_cons_eq, lookup_cons_eq, ih]
        by_cases hj : j = k'
        · have hjk : j ≠ k := fun h => hne (h.symm.trans hj)
          rw [if_pos hj, if_neg hjk, if_pos hj]
        · rw [if_neg hj, if_neg hj]

namespace NameMap

@[simp] theorem find?_empty (k : String) : (empty : NameMap α).find? k = none := rfl

theorem find?_insert (m : NameMap α) (k j : String) (v : α) :
    (m.insert k v).find? j = if j = k then some v else m.find? j :=
  lookup_insertEntry k j v m.entries

/-- The entries are what is found. -/
theorem mem_entries_iff {m : NameMap α} {k : String} {v : α} :
    (k, v) ∈ m.entries ↔ m.find? k = some v := by
  obtain ⟨es, hes⟩ := m
  show (k, v) ∈ es ↔ es.lookup k = some v
  induction es with
  | nil => simp
  | cons e es ih =>
    obtain ⟨k', v'⟩ := e
    obtain ⟨hhead, htail⟩ := List.pairwise_cons.1 hes
    rw [lookup_cons_eq, List.mem_cons, ih htail]
    by_cases hk : k = k'
    · subst hk
      have hnone : es.lookup k ≠ some v := by
        intro h
        exact absurd (hhead _ ((ih htail).2 h)) (String.lt_irrefl k)
      simp [hnone, eq_comm]
    · simp [hk]

theorem find?_map {β : Type} (m : NameMap α) (f : α → β) (k : String) :
    (m.map f).find? k = (m.find? k).map f := by
  ext b
  rw [← mem_entries_iff, Option.map_eq_some_iff]
  simp only [map, List.mem_map, Prod.mk.injEq, ← mem_entries_iff]
  constructor
  · rintro ⟨⟨k', v⟩, hmem, rfl, rfl⟩
    exact ⟨v, hmem, rfl⟩
  · rintro ⟨v, hmem, rfl⟩
    exact ⟨(k, v), hmem, rfl, rfl⟩

theorem find?_filter (m : NameMap α) (p : String → α → Bool) (k : String) :
    (m.filter p).find? k = (m.find? k).filter (p k) := by
  ext v
  rw [← mem_entries_iff, Option.filter_eq_some_iff, ← mem_entries_iff]
  exact List.mem_filter

theorem mem_keys_iff {m : NameMap α} {k : String} : k ∈ m.keys ↔ ∃ v, m.find? k = some v := by
  rw [keys, List.mem_map]
  constructor
  · rintro ⟨⟨k, v⟩, hmem, rfl⟩
    exact ⟨v, mem_entries_iff.1 hmem⟩
  · rintro ⟨v, hv⟩
    exact ⟨(k, v), mem_entries_iff.2 hv, rfl⟩

theorem nodup_entries (m : NameMap α) : m.entries.Nodup := by
  apply m.ordered.imp
  rintro a b hlt rfl
  exact String.lt_irrefl _ hlt

/-- **Maps that find the same are equal.** -/
theorem ext_find? {m n : NameMap α} (h : ∀ k, m.find? k = n.find? k) : m = n := by
  have hperm : m.entries.Perm n.entries := by
    rw [List.perm_ext_iff_of_nodup m.nodup_entries n.nodup_entries]
    rintro ⟨k, v⟩
    rw [mem_entries_iff, mem_entries_iff, h k]
  have heq : m.entries = n.entries := by
    refine hperm.eq_of_pairwise (fun a b _ _ hab hba => ?_) m.ordered n.ordered
    exact absurd (String.lt_trans hab hba) (String.lt_irrefl _)
  obtain ⟨es, hes⟩ := m
  obtain rfl : es = n.entries := heq
  rfl

/-- The entries of a map that finds less are left of those of a map that finds more. -/
theorem sublist_entries {m n : NameMap α}
    (h : ∀ k v, m.find? k = some v → n.find? k = some v) : m.entries.Sublist n.entries := by
  have hsubset : m.entries ⊆ n.entries := by
    rintro ⟨k, v⟩ hmem
    exact mem_entries_iff.2 (h k v (mem_entries_iff.1 hmem))
  have hantisymm : Std.Antisymm fun e f : String × α => e.1 < f.1 :=
    ⟨fun e f hef hfe => absurd (String.lt_trans hef hfe) (String.lt_irrefl _)⟩
  exact List.sublist_of_subperm_of_pairwise (m.nodup_entries.subperm hsubset) m.ordered n.ordered

end NameMap

namespace NameSet

theorem contains_foldl_insert (es : List (String × Unit)) (s : NameSet) (n : String) :
    NameSet.contains (es.foldl (fun m e => m.insert e.1 e.2) s) n = true ↔
      s.contains n = true ∨ ∃ v, (n, v) ∈ es := by
  induction es generalizing s with
  | nil => simp
  | cons e es ih =>
    obtain ⟨k, v⟩ := e
    rw [List.foldl_cons, ih, contains, NameMap.find?_insert]
    by_cases hk : n = k <;> simp [contains, hk]

/-- Putting in the names of a set adds just these. -/
theorem contains_union (s t : NameSet) (n : String) :
    (s.union t).contains n = true ↔ s.contains n = true ∨ t.contains n = true := by
  have hentries : (∃ v, (n, v) ∈ t.entries) ↔ t.contains n = true := by
    simp only [NameMap.mem_entries_iff, contains, Option.isSome_iff_exists]
  rw [union, contains_foldl_insert, hentries]

/-- A set of names in a list has just these. -/
theorem contains_ofList (names : List String) (n : String) :
    (ofList names).contains n = true ↔ n ∈ names := by
  rw [ofList, NameMap.ofList, contains_foldl_insert]
  simp [contains]

/-- The names in both sets. -/
def inter (s t : NameSet) : NameSet := s.filter fun n _ => t.contains n

theorem contains_inter (s t : NameSet) (n : String) :
    (s.inter t).contains n = (s.contains n && t.contains n) := by
  rw [inter, contains, contains, NameMap.find?_filter]
  cases s.find? n with
  | none => rfl
  | some _ => cases t.contains n <;> rfl

/-- **Sets with the same names are equal.** -/
theorem ext_contains {s t : NameSet} (h : ∀ n, s.contains n = true ↔ t.contains n = true) :
    s = t := by
  refine NameMap.ext_find? fun n => Option.ext fun u => ?_
  have hmem := h n
  rw [contains, contains, Option.isSome_iff_exists, Option.isSome_iff_exists] at hmem
  constructor
  · exact fun hn => (hmem.1 ⟨u, hn⟩).elim fun _ => id
  · exact fun hn => (hmem.2 ⟨u, hn⟩).elim fun _ => id

theorem union_assoc (s t u : NameSet) : (s.union t).union u = s.union (t.union u) :=
  ext_contains fun n => by simp only [contains_union, or_assoc]

theorem empty_union (s : NameSet) : NameSet.union ∅ s = s :=
  ext_contains fun n => by
    rw [contains_union]
    exact or_iff_right Bool.false_ne_true

end NameSet

end GlyphTrim
