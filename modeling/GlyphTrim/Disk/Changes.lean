import GlyphTrim.Disk.Basic

/-!
# What changed on a disk

The folders and files that a disk has and an earlier one had not, or had with other bytes. A
folder comes before what it holds, so the changes can be made one after another.
-/

namespace GlyphTrim

namespace Tree

mutual

/-- Every tree in a tree that stands at a location, from the outside in. -/
def places (l : Location) : Tree → List (Location × Tree)
  | .folder entries => (l, .folder entries) :: placesOfAll l entries
  | t => [(l, t)]

/-- Every tree in the entries of a folder at a location. -/
def placesOfAll (l : Location) : List Entry → List (Location × Tree)
  | [] => []
  | .mk name tree :: rest => tree.places (l ++ [name]) ++ placesOfAll l rest

end

end Tree

/-- A change of a disk. -/
inductive DiskChange
  /-- A folder is new. -/
  | folder (l : Location)
  /-- A file is new, or holds other bytes. -/
  | file (l : Location) (bytes : ByteArray)

namespace Disk

/-- What changed at a location, if the tree there is not what an earlier disk had. -/
def changeAt? (before : Disk) (l : Location) (now : Tree) : Option DiskChange :=
  match now, before.root.at? l with
  | .folder _, some (.folder _) => none
  | .folder _, _ => some (.folder l)
  | .file bytes, some (.file old) => if bytes.data = old.data then none else some (.file l bytes)
  | .file bytes, _ => some (.file l bytes)
  | .link _, _ => none

/-- The changes that make a disk out of an earlier one, if nothing was removed and no link was
made. -/
def changes (before now : Disk) : List DiskChange :=
  (now.root.places []).filterMap fun (l, t) => before.changeAt? l t

end Disk

end GlyphTrim
