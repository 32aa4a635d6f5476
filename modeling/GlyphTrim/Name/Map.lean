/-!
# Finite maps from names

A map from names is the list of its entries in strictly increasing order of the names, so equal
maps have equal entries, and what is printed from a map stands in order. Names are ordered by
their characters, which is also the order of their bytes in UTF-8. The main statements describe
`find?` after `insert` and after `ofList`.
-/

namespace GlyphTrim

/-- Puts an entry in its place; an entry with the same name gives way. -/
def insertEntry {α : Type} (k : String) (v : α) : List (String × α) → List (String × α)
  | [] => [(k, v)]
  | (k', v') :: rest =>
    if k < k' then (k, v) :: (k', v') :: rest
    else if k = k' then (k, v) :: rest
    else (k', v') :: insertEntry k v rest

theorem mem_insertEntry {α : Type} {k : String} {v : α} {es : List (String × α)}
    {e : String × α} (h : e ∈ insertEntry k v es) : e = (k, v) ∨ e ∈ es := by
  induction es with
  | nil => simpa [insertEntry] using h
  | cons e' es ih =>
    unfold insertEntry at h
    grind

theorem pairwise_insertEntry {α : Type} {k : String} {v : α} {es : List (String × α)}
    (h : es.Pairwise (·.1 < ·.1)) : (insertEntry k v es).Pairwise (·.1 < ·.1) := by
  induction es with
  | nil => simp [insertEntry]
  | cons e es ih =>
    obtain ⟨hhead, htail⟩ := List.pairwise_cons.1 h
    unfold insertEntry
    split
    · rename_i hlt
      refine List.pairwise_cons.2 ⟨?_, h⟩
      intro x hx
      rcases List.mem_cons.1 hx with rfl | hx
      · exact hlt
      · exact String.lt_trans hlt (hhead x hx)
    · split
      · rename_i heq
        subst heq
        exact List.pairwise_cons.2 ⟨hhead, htail⟩
      · rename_i hnlt hne
        refine List.pairwise_cons.2 ⟨?_, ih htail⟩
        intro x hx
        rcases mem_insertEntry hx with rfl | hx
        · exact Std.lt_of_le_of_ne (String.not_lt.1 hnlt) (Ne.symm hne)
        · exact hhead x hx

/-- A finite map from names. -/
structure NameMap (α : Type) where
  /-- The entries, in order of the names. -/
  entries : List (String × α)
  /-- The names increase. -/
  ordered : entries.Pairwise (·.1 < ·.1)

namespace NameMap

variable {α : Type}

/-- The map without entries. -/
def empty : NameMap α := ⟨[], List.Pairwise.nil⟩

instance : Inhabited (NameMap α) := ⟨empty⟩

instance : EmptyCollection (NameMap α) := ⟨empty⟩

/-- The map with an entry more; an entry with the same name gives way. -/
def insert (m : NameMap α) (k : String) (v : α) : NameMap α :=
  ⟨insertEntry k v m.entries, pairwise_insertEntry m.ordered⟩

/-- The map of a list of entries, of which the last with a name counts. -/
def ofList (es : List (String × α)) : NameMap α :=
  es.foldl (fun m e => m.insert e.1 e.2) empty

/-- The value of a name. -/
def find? (m : NameMap α) (k : String) : Option α :=
  m.entries.lookup k

/-- The names, in order. -/
def keys (m : NameMap α) : List String :=
  m.entries.map (·.1)

/-- The map of the entries with a property. -/
def filter (m : NameMap α) (p : String → α → Bool) : NameMap α :=
  ⟨m.entries.filter fun e => p e.1 e.2, m.ordered.filter _⟩

/-- The map with changed values. -/
def map {β : Type} (m : NameMap α) (f : α → β) : NameMap β :=
  ⟨m.entries.map fun e => (e.1, f e.2), List.pairwise_map.2 m.ordered⟩

/-- Whether there is no entry. -/
def isEmpty (m : NameMap α) : Bool := m.entries.isEmpty

end NameMap

/-- A finite set of names: the map that gives each of them nothing. -/
abbrev NameSet := NameMap Unit

namespace NameSet

/-- The names, in order. -/
def toList (s : NameSet) : List String := s.keys

/-- The set of the names in a list. -/
def ofList (names : List String) : NameSet := NameMap.ofList (names.map (·, ()))

/-- Whether a name is in the set. -/
def contains (s : NameSet) (name : String) : Bool := (s.find? name).isSome

/-- The names in either set. -/
def union (s t : NameSet) : NameSet := t.entries.foldl (fun m e => m.insert e.1 e.2) s

end NameSet

end GlyphTrim
