/-!
# Paths

A path is written as text. Its *components* are what lies between the slashes, where empty pieces
and single dots do not count, except for a single dot at the start. Two paths are joined as texts,
so a path that is shown keeps its spelling until it is normalized. Everything here looks at the
text alone; no file is consulted.
-/

namespace GlyphTrim

/-- A path, as written. -/
structure Path where
  text : String
  deriving Repr, DecidableEq

namespace Path

instance : Inhabited Path := ⟨⟨""⟩⟩

/-- A piece of a path. -/
inductive Component
  /-- The slash at the start. -/
  | root
  /-- A single dot at the start. -/
  | current
  /-- Two dots. -/
  | parent
  | name (name : String)
  deriving Repr, DecidableEq

/-- Cuts a text at its slashes. -/
def pieces : List Char → List (List Char)
  | [] => [[]]
  | c :: cs =>
    match pieces cs with
    | piece :: more => if c == '/' then [] :: piece :: more else (c :: piece) :: more
    | [] => [[c]]

/-- Whether a path begins with a slash. -/
def isAbsolute (p : Path) : Bool := p.text.toList.head? == some '/'

/-- The component that a piece is, if it counts. -/
def component? (piece : List Char) : Option Component :=
  if piece == [] || piece == ['.'] then none
  else if piece == ['.', '.'] then some .parent
  else some (.name (String.ofList piece))

/-- The components of a path. -/
def components (p : Path) : List Component :=
  let ps := pieces p.text.toList
  let first : List Component :=
    if p.isAbsolute then [.root] else if ps.head? == some ['.'] then [.current] else []
  first ++ ps.filterMap component?

/-- A path after another one. A path that begins with a slash stands for itself. -/
def join (p q : Path) : Path :=
  if q.isAbsolute || p.text.isEmpty then q
  else if p.text.toList.getLast? == some '/' then ⟨p.text ++ q.text⟩
  else ⟨p.text ++ "/" ++ q.text⟩

/-! ## Normal forms -/

/-- A path without dots, except perhaps two dots at its start: whether it begins with a slash, and
its names from the last to the first. -/
structure Folded where
  absolute : Bool := false
  names : List String := []
  deriving Repr, DecidableEq

namespace Folded

/-- The path with a component more. Two dots take the last name away, if there is one. -/
def push (f : Folded) : Component → Folded
  | .root => { absolute := true, names := [] }
  | .current => f
  | .parent =>
    match f.names with
    | [] => { f with names := [".."] }
    | _ :: names => { f with names }
  | .name n => { f with names := n :: f.names }

/-- The path as written. -/
def toPath (f : Folded) : Path :=
  ⟨(if f.absolute then "/" else "") ++ "/".intercalate f.names.reverse⟩

end Folded

/-- The components of a path put together, where two dots take the name before them away. -/
def fold (p : Path) : Folded := p.components.foldl Folded.push {}

/-- The normal form of a path. -/
def normalize (p : Path) : Path := p.fold.toPath

/-- The normal form of a path that is taken from a root. -/
def resolve (root p : Path) : Path := (root.join p).normalize

/-! ## Names and parents -/

/-- Whether a piece of a path counts for nothing at its end. -/
def isSilent (piece : List Char) : Bool := piece == [] || piece == ['.']

/-- The pieces of a path in front of its first piece that counts for nothing at the end. The first
piece stays. -/
def dropSilent (ps : List (List Char)) : List (List Char) :=
  match ps with
  | [] => []
  | first :: rest => first :: (rest.reverse.dropWhile isSilent).reverse

/-- The pieces put together. One empty piece is the slash at the start. -/
def ofPieces : List (List Char) → Path
  | [[]] => ⟨"/"⟩
  | ps => ⟨"/".intercalate (ps.map String.ofList)⟩

/-- The path without its last component, if it has one that is not the slash at the start. -/
def parent? (p : Path) : Option Path :=
  match dropSilent (pieces p.text.toList) with
  | [] | [[]] => none
  | [_] => some ⟨""⟩
  | ps => some (ofPieces (dropSilent ps.dropLast))

/-- The name at the end of a path. -/
def fileName? (p : Path) : Option String :=
  match p.components.getLast? with
  | some (.name n) => some n
  | _ => none

/-- A name without its extension, and the extension: what follows the last dot, unless the dot is
the first character. -/
def splitExtension (name : String) : String × Option String :=
  let back := name.toList.reverse
  let extension := (back.takeWhile (· != '.')).reverse
  match back.dropWhile (· != '.') with
  | _ :: stem =>
    if stem.isEmpty then (name, none)
    else (String.ofList stem.reverse, some (String.ofList extension))
  | [] => (name, none)

/-- The name at the end of a path, without its extension. -/
def fileStem? (p : Path) : Option String := p.fileName?.map fun n => (splitExtension n).1

/-- The extension of the name at the end of a path. -/
def extension? (p : Path) : Option String := p.fileName?.bind fun n => (splitExtension n).2

end Path

end GlyphTrim
