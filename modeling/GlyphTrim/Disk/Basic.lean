import GlyphTrim.Disk.Fault
import GlyphTrim.Disk.Tree
import GlyphTrim.Text.Utf8

/-!
# The disk

A disk is a tree with a current folder. A path is followed piece by piece from the current folder,
or from the root if it begins with a slash: two dots lead to the folder around, a link leads to
where it points, and every piece but the last has to be a folder. Operations that change the disk
return it also when they fail, since they may have done a part of their work.
-/

namespace GlyphTrim

/-- A tree with a current folder. -/
structure Disk where
  root : Tree
  /-- The current folder. -/
  current : Location

namespace Disk

/-! ## Following a path -/

/-- How many links may be followed on one path. -/
def linkBound : Nat := 40

/-- The bytes that a name may take. -/
def nameBound : Nat := 255

/-- The bytes that a path may take. -/
def pathBound : Nat := 4095

/-- The pieces of a path that count on the way. -/
def steps (p : Path) : List String :=
  ((Path.pieces p.text.toList).filter (· != [])).map String.ofList

/-- Whether a path ends with a slash, so that what it names has to be a folder. -/
def asksFolder (p : Path) : Bool := p.text.toList.getLast? == some '/'

/-- The place where following a link begins, if the link stands in a folder. -/
def startOf (folder : Location) (p : Path) : Location := if p.isAbsolute then [] else folder

/-- Where following pieces comes to a halt. -/
inductive Halt
  | at (l : Location)
  /-- At a link in a folder, with the pieces that are left behind it. -/
  | link (folder : Location) (target : Path) (rest : List String)

/-- Follows pieces from a location up to the first link that has to be followed. A link at the end
has to be followed if `last` says so. -/
def followToLink (root : Tree) (last : Bool) (here : Location) :
    List String → Except DiskFault Halt
  | [] => .ok (.at here)
  | piece :: rest =>
    match root.at? here with
    | none => .error .notFound
    | some (.file _) | some (.link _) => .error .notFolder
    | some (.folder _) =>
      if piece = "." then followToLink root last here rest
      else if piece = ".." then followToLink root last here.dropLast rest
      else if nameBound < piece.utf8ByteSize then .error .nameTooLong
      else
        match root.at? (here ++ [piece]) with
        | some (.link target) =>
          if rest.isEmpty && !last then .ok (.at (here ++ [piece]))
          else .ok (.link here target rest)
        | _ => followToLink root last (here ++ [piece]) rest

/-- Follows pieces from a location, with at most `links` links. The result need not exist, but the
folder around it does. -/
def follow (root : Tree) (last : Bool) (links : Nat) (here : Location) (pieces : List String) :
    Except DiskFault Location :=
  match followToLink root last here pieces with
  | .error e => .error e
  | .ok (.at l) => .ok l
  | .ok (.link folder target rest) =>
    match links with
    | 0 => .error .tooManyLinks
    | links + 1 =>
      follow root last links (startOf folder target)
        (steps target ++ (if asksFolder target then ["."] else []) ++ rest)

/-- The location of a path, of which a link at the end is followed if `last` says so. -/
def locate (d : Disk) (last : Bool) (p : Path) : Except DiskFault Location :=
  if p.text.toList.contains (Char.ofNat 0) then .error .nulInPath
  else if p.text.isEmpty then .error .notFound
  else if pathBound < p.text.utf8ByteSize then .error .nameTooLong
  else follow d.root last linkBound (startOf d.current p) (steps p)

/-- What a path names. A link at the end is followed if `last` says so, or if the path ends with
a slash. -/
def find (d : Disk) (last : Bool) (p : Path) : Except DiskFault Tree :=
  match d.locate (last || asksFolder p) p with
  | .error e => .error e
  | .ok l =>
    match d.root.at? l with
    | none => .error .notFound
    | some t => if asksFolder p && !t.isFolder then .error .notFolder else .ok t

/-! ## Asking -/

/-- Whether a path names anything. -/
def holds (d : Disk) (p : Path) : Bool :=
  match d.find true p with
  | .ok _ => true
  | .error _ => false

/-- Whether a path names a folder. -/
def hasFolder (d : Disk) (p : Path) : Bool :=
  match d.find true p with
  | .ok t => t.isFolder
  | .error _ => false

/-- Whether a path names a file. -/
def hasFile (d : Disk) (p : Path) : Bool :=
  match d.find true p with
  | .ok t => t.isFile
  | .error _ => false

/-- The bytes of a file. -/
def read (d : Disk) (p : Path) : Except DiskFault ByteArray :=
  match d.find true p with
  | .ok (.file bytes) => .ok bytes
  | .ok (.folder _) => .error .isFolder
  | .ok (.link _) => .error .tooManyLinks
  | .error e => .error e

/-- The text of a file. -/
def readText (d : Disk) (p : Path) : Except DiskFault String :=
  match d.read p with
  | .ok bytes =>
    match Text.decode? bytes with
    | some text => .ok text
    | none => .error .notText
  | .error e => .error e

/-! ## Changing -/

/-- The disk with a tree at a location. -/
def put (d : Disk) (l : Location) (t : Tree) : Disk := { d with root := d.root.put t l }

/-- Writes a file. What it held is lost. -/
def write (d : Disk) (p : Path) (bytes : ByteArray) : Except DiskFault Unit × Disk :=
  match d.locate true p with
  | .error e => (.error e, d)
  | .ok l =>
    if asksFolder p then (.error .isFolder, d)
    else
      match d.root.at? l with
      | some (.folder _) => (.error .isFolder, d)
      | _ => (.ok (), d.put l (.file bytes))

/-- Makes one new folder. -/
def makeFolder (d : Disk) (p : Path) : Except DiskFault Unit × Disk :=
  match d.locate false p with
  | .error e => (.error e, d)
  | .ok l =>
    match d.root.at? l with
    | some _ => (.error .alreadyExists, d)
    | none => (.ok (), d.put l (.folder []))

/-- Makes a folder again after the folders around it are made: a folder that is there already is
as good. -/
def settleFolder (d : Disk) (p : Path) : Except DiskFault Unit × Disk :=
  match d.makeFolder p with
  | (.ok (), d) => (.ok (), d)
  | (.error e, d) => if d.hasFolder p then (.ok (), d) else (.error e, d)

/-- Makes a folder and the folders around it, of which there are at most `bound`. -/
def makeFoldersWithin (bound : Nat) (d : Disk) (p : Path) : Except DiskFault Unit × Disk :=
  match bound with
  | 0 => (.ok (), d)
  | bound + 1 =>
    if p.text.isEmpty then (.ok (), d)
    else
      match d.makeFolder p with
      | (.ok (), d) => (.ok (), d)
      | (.error .notFound, d) =>
        match p.parent? with
        | none => (.error (.other "failed to create whole tree"), d)
        | some parent =>
          match makeFoldersWithin bound d parent with
          | (.error e, d) => (.error e, d)
          | (.ok (), d) => d.settleFolder p
      | (.error e, d) => if d.hasFolder p then (.ok (), d) else (.error e, d)

/-- Makes a folder and the folders around it. -/
def makeFolders (d : Disk) (p : Path) : Except DiskFault Unit × Disk :=
  makeFoldersWithin ((Path.pieces p.text.toList).length + 1) d p

/-- Makes a link. -/
def makeLink (d : Disk) (p target : Path) : Except DiskFault Unit × Disk :=
  match d.locate false p with
  | .error e => (.error e, d)
  | .ok l =>
    match d.root.at? l with
    | some _ => (.error .alreadyExists, d)
    | none => (.ok (), d.put l (.link target))

/-- Removes a file, a link, or a folder with all it holds. -/
def remove (d : Disk) (p : Path) : Except DiskFault Unit × Disk :=
  match d.locate false p with
  | .error e => (.error e, d)
  | .ok l =>
    match d.root.at? l with
    | none => (.error .notFound, d)
    | some _ => (.ok (), { d with root := d.root.erase l })

/-- The paths of all files and links in the current folder, as they are written there. -/
def leafPaths (d : Disk) : List Path :=
  match d.root.at? d.current with
  | some t => t.leafPaths ⟨""⟩
  | none => []

end Disk

end GlyphTrim
