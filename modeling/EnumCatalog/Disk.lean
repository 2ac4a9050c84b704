import EnumCatalog.FsPath

/-!
# Disks

A tree of directories with files and symbolic links, and what can be asked of it and done to it by
name. A name is looked up from the current directory, which is the root of the tree; what lies
outside is not known, so names that lead there lead nowhere.

A look-up goes through the pieces of a name one by one (`Disk.walk`). A link is replaced by the
pieces of its target; a look-up that meets too many links fails (`Disk.maxLinks`). The answer is the
*location*: the names of the directories from the root down, without links. Two names mean the same
file if they have the same location.

The entries of a directory are kept in the order of their names, so going through all files takes no
sorting.
-/

set_option autoImplicit false

namespace EnumCatalog

/-- What a file holds: a text, or bytes that are none. -/
inductive Content where
  | text (t : String)
  | binary (bytes : List Nat)
  deriving DecidableEq, Repr, Inhabited

/-- A file, a directory or a symbolic link. -/
inductive Node where
  | file (c : Content)
  | directory (entries : List (String × Node))
  | link (target : FsPath)
  deriving Inhabited

/-- The names of directories from the root down. -/
abbrev Location := List String

abbrev Entries := List (String × Node)

namespace Entries

def get? (es : Entries) (name : String) : Option Node := es.lookup name

/-- Sets the node with a name, in its place in the order. -/
def set (name : String) (n : Node) : Entries → Entries
  | [] => [(name, n)]
  | e :: rest =>
    if e.1 == name then (name, n) :: rest
    else if name < e.1 then (name, n) :: e :: rest
    else e :: set name n rest

/-- Removes the node with a name. -/
def erase (es : Entries) (name : String) : Entries := es.filter (·.1 != name)

/-- The node at a location below. -/
def nodeAt? (es : Entries) : Location → Option Node
  | [] => some (.directory es)
  | [name] => es.get? name
  | name :: rest =>
    match es.get? name with
    | some (.directory inner) => nodeAt? inner rest
    | _ => none

/-- Changes the entries of the directory at a location below. -/
def updateAt (f : Entries → Entries) (es : Entries) : Location → Option Entries
  | [] => some (f es)
  | name :: rest =>
    match es.get? name with
    | some (.directory inner) => do
      return es.set name (.directory (← updateAt f inner rest))
    | _ => none

end Entries

/-- A disk: the entries of its root. -/
structure Disk where
  entries : Entries
  deriving Inhabited

namespace Disk

/-- A disk with nothing on it. -/
def empty : Disk := ⟨[]⟩

def nodeAt? (d : Disk) (l : Location) : Option Node := d.entries.nodeAt? l

/-! ## Looking up -/

/-- What a look-up does with the last piece of a name. -/
inductive Last where
  /-- A link is followed, and something has to be there. -/
  | follow
  /-- A link is not followed. -/
  | keep
  /-- A link is followed, but nothing has to be there. -/
  | create
  deriving DecidableEq

/-- The pieces of a name as a look-up sees them. -/
def piecesOf (p : FsPath) : List String := (FsPath.pieces p.text.toList).map String.ofList

/-- Goes through pieces from a directory on. What a link leads to is asked of `jump`, with the
directory of the link and the pieces to go on with. -/
def walk (d : Disk) (last : Last) (jump : Location → List String → Option Location) :
    Location → List String → Option Location
  | here, [] => some here
  | here, piece :: rest =>
    if piece == "" || piece == "." then walk d last jump here rest
    else if piece == ".." then
      if here.isEmpty then none else walk d last jump here.dropLast rest
    else
      let there := here ++ [piece]
      match d.nodeAt? there with
      | some (.directory _) => walk d last jump there rest
      | some (.file _) => if rest.isEmpty then some there else none
      | some (.link target) =>
        if rest.isEmpty && last == .keep then some there
        else if target.isAbsolute then none
        else jump here (piecesOf target ++ rest)
      | none => if rest.isEmpty && last == .create then some there else none

/-- The links that a look-up may meet. -/
def maxLinks : Nat := 40

/-- Goes through pieces from a directory on and meets at most so many links. -/
def walkWithin (d : Disk) (last : Last) : Nat → Location → List String → Option Location
  | 0 => walk d last fun _ _ => none
  | n + 1 => walk d last (walkWithin d last n)

/-- The location that a name leads to. -/
def locate? (d : Disk) (last : Last) (p : FsPath) : Option Location :=
  if p.text.isEmpty || p.isAbsolute then none
  else walkWithin d last maxLinks [] (piecesOf p)

/-- The location of something that is there. -/
def canonical? (d : Disk) (p : FsPath) : Option Location := d.locate? .follow p

/-- The node that a name leads to. -/
def get? (d : Disk) (p : FsPath) : Option Node := do d.nodeAt? (← d.canonical? p)

/-- Whether a name leads to a file. -/
def isFile (d : Disk) (p : FsPath) : Bool :=
  match d.get? p with
  | some (.file _) => true
  | _ => false

/-- Whether a name leads to a directory. -/
def isDirectory (d : Disk) (p : FsPath) : Bool :=
  match d.get? p with
  | some (.directory _) => true
  | _ => false

def readText? (d : Disk) (p : FsPath) : Option String :=
  match d.get? p with
  | some (.file (.text t)) => some t
  | _ => none

mutual

/-- The names of the files at and below a node with a name, in order. Links are left out. -/
def filesAt (p : FsPath) : Node → List FsPath
  | .file _ => [p]
  | .directory es => filesIn p es
  | .link _ => []

/-- The names of the files in and below the entries of a directory with a name, in order. -/
def filesIn (dir : FsPath) : List (String × Node) → List FsPath
  | [] => []
  | (name, n) :: rest => filesAt (dir.join ⟨name⟩) n ++ filesIn dir rest

end

/-- The names of the files below a directory, in order. -/
def filesUnder (d : Disk) (dir : FsPath) : List FsPath :=
  match d.get? dir with
  | some n => filesAt dir n
  | none => []

/-! ## Changing -/

/-- Sets the node at a location whose directory is there. -/
def setAt (d : Disk) (l : Location) (n : Node) : Option Disk := do
  return ⟨← d.entries.updateAt (·.set (← l.getLast?) n) l.dropLast⟩

/-- Makes a directory. Something that is no directory must not be there, and the directory around it
has to be there. -/
def makeDirectory (d : Disk) (p : FsPath) : Option Disk :=
  if d.isDirectory p then some d
  else do
    let l ← d.locate? .keep p.trimmed <|> d.locate? .create p.trimmed
    if (d.nodeAt? l).isSome then none else d.setAt l (.directory [])

/-- The directories that have to be there for a directory, from the outside in. -/
def directoriesTo (p : FsPath) : List FsPath := p.ancestors.reverse.filter (!·.text.isEmpty)

/-- Makes a directory with all those around it. -/
def makeDirectories (d : Disk) (p : FsPath) : Option Disk := (directoriesTo p).foldlM makeDirectory d

/-- Makes directories one after another, up to the first that cannot be made. -/
def makeEach (d : Disk) : List FsPath → Disk
  | [] => d
  | p :: ps =>
    match d.makeDirectory p with
    | some d' => d'.makeEach ps
    | none => d

/-- Writes a file, whether or not there was one. -/
def write (d : Disk) (p : FsPath) (c : Content) : Option Disk := do
  let l ← d.locate? .create p
  match d.nodeAt? l with
  | some (.directory _) => none
  | _ => d.setAt l (.file c)

/-- Writes a file and makes the directories around it. -/
def install (d : Disk) (p : FsPath) (c : Content) : Option Disk := do
  let d ← match p.parent? with
    | some dir => d.makeDirectories dir
    | none => some d
  d.write p c

/-- Removes a file, a link, or a directory with all that is in it. -/
def remove (d : Disk) (p : FsPath) : Option Disk := do
  let l ← d.locate? .keep p
  return ⟨← d.entries.updateAt (·.erase (← l.getLast?)) l.dropLast⟩

/-- Makes a symbolic link where nothing is. -/
def makeLink (d : Disk) (p target : FsPath) : Option Disk := do
  let d ← match p.parent? with
    | some dir => d.makeDirectories dir
    | none => some d
  match d.locate? .keep p with
  | some _ => none
  | none => d.setAt (← d.locate? .create p) (.link target)

end Disk

end EnumCatalog
