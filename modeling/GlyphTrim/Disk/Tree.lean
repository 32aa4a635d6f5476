import GlyphTrim.Path

/-!
# File trees

A tree is a file, a symbolic link or a folder of named trees. A *location* in a tree is the list
of names that leads to it. `Tree.at?` finds the tree at a location, `Tree.put` replaces it and
`Tree.erase` takes it away.
-/

namespace GlyphTrim

mutual

/-- A file, a symbolic link or a folder. -/
inductive Tree
  | file (bytes : ByteArray)
  | link (target : Path)
  | folder (entries : List Entry)

/-- A named tree in a folder. -/
inductive Entry
  | mk (name : String) (tree : Tree)

end

namespace Entry

/-- The tree with a name. -/
def find? (name : String) : List Entry → Option Tree
  | [] => none
  | .mk n t :: rest => if n = name then some t else find? name rest

/-- The entries in which a name stands for a tree. -/
def set (name : String) (tree : Tree) : List Entry → List Entry
  | [] => [.mk name tree]
  | .mk n t :: rest => if n = name then .mk n tree :: rest else .mk n t :: set name tree rest

/-- The entries without a name. -/
def erase (name : String) : List Entry → List Entry
  | [] => []
  | .mk n t :: rest => if n = name then erase name rest else .mk n t :: erase name rest

theorem find?_set_self (name : String) (tree : Tree) (es : List Entry) :
    find? name (set name tree es) = some tree := by
  induction es with
  | nil => simp [set, find?]
  | cons e es ih =>
    cases e with
    | mk n t => by_cases h : n = name <;> simp [set, find?, h, ih]

theorem find?_set_of_ne {name other : String} (h : other ≠ name) (tree : Tree)
    (es : List Entry) : find? other (set name tree es) = find? other es := by
  induction es with
  | nil => simp [set, find?, Ne.symm h]
  | cons e es ih =>
    cases e with
    | mk n t =>
      by_cases hn : n = name
      · subst hn
        simp [set, find?, Ne.symm h]
      · by_cases ho : n = other <;> simp [set, find?, hn, ho, h, ih]

end Entry

/-- The names that lead to a tree in a tree, from the outside in. -/
abbrev Location := List String

namespace Tree

instance : Inhabited Tree := ⟨.folder []⟩

/-- Whether a tree is a folder. -/
def isFolder : Tree → Bool
  | .folder _ => true
  | _ => false

/-- Whether a tree is a file. -/
def isFile : Tree → Bool
  | .file _ => true
  | _ => false

/-- The tree with a name in a folder. -/
def child? (t : Tree) (name : String) : Option Tree :=
  match t with
  | .folder entries => Entry.find? name entries
  | _ => none

/-- The tree at a location. -/
def at? (t : Tree) : Location → Option Tree
  | [] => some t
  | name :: rest =>
    match t.child? name with
    | some c => c.at? rest
    | none => none

/-- The tree in which another tree stands at a location. Folders on the way are made; a file or
link on the way stays, and then nothing changes. -/
def put (t : Tree) (new : Tree) : Location → Tree
  | [] => new
  | name :: rest =>
    match t with
    | .folder entries =>
      .folder (Entry.set name (((Entry.find? name entries).getD (.folder [])).put new rest) entries)
    | _ => t

/-- The tree without what stands at a location. -/
def erase (t : Tree) : Location → Tree
  | [] => .folder []
  | [name] =>
    match t with
    | .folder entries => .folder (Entry.erase name entries)
    | _ => t
  | name :: rest =>
    match t with
    | .folder entries =>
      match Entry.find? name entries with
      | some c => .folder (Entry.set name (c.erase rest) entries)
      | none => t
    | _ => t

@[simp]
theorem at?_nil (t : Tree) : t.at? [] = some t := rfl

/-! ## What a tree holds -/

mutual

/-- The paths of all files and links in a tree that stands at a path. -/
def leafPaths (path : Path) : Tree → List Path
  | .file _ | .link _ => [path]
  | .folder entries => leafPathsOfAll path entries

/-- The paths of all files and links in entries of a folder at a path. -/
def leafPathsOfAll (dir : Path) : List Entry → List Path
  | [] => []
  | .mk name tree :: rest => tree.leafPaths (dir.join ⟨name⟩) ++ leafPathsOfAll dir rest

end

end Tree

end GlyphTrim
