/-!
# File names

The name of a file or directory as it is written, such as `./src//lib.rs`. The text is kept, because
it is shown and built upon as it is; two names are the same if they have the same parts.

A name has a start and a body. The start is a slash, or a dot that stands first, or nothing. The
body is cut at its slashes into pieces, of which those that are empty or a dot are no part of the
name (`isFiller`). The system that opens the file does see them: after a last slash only a directory
can be meant. `pieces` of the whole text is what the system goes by.
-/

set_option autoImplicit false

namespace EnumCatalog

/-- The name of a file or directory. -/
structure FsPath where
  text : String
  deriving DecidableEq, Repr, Inhabited

namespace FsPath

inductive Part where
  /-- The slash at the start. -/
  | top
  /-- The dot at the start. -/
  | here
  /-- Two dots. -/
  | up
  | name (n : String)
  deriving DecidableEq, Repr

/-- Cuts a text at its slashes. -/
def pieces : List Char → List (List Char)
  | [] => [[]]
  | c :: rest =>
    if c == '/' then [] :: pieces rest
    else
      match pieces rest with
      | p :: ps => (c :: p) :: ps
      | [] => [[c]]

def joinPieces (ps : List (List Char)) : List Char := List.intercalate ['/'] ps

/-- The start of a name and its body. -/
def split : List Char → List Char × List Char
  | '/' :: rest => (['/'], rest)
  | ['.'] => (['.'], [])
  | '.' :: '/' :: rest => (['.'], '/' :: rest)
  | cs => ([], cs)

/-- Whether a piece of the body is no part of the name. -/
def isFiller (piece : List Char) : Bool := piece == [] || piece == ['.']

def startPart : List Char → Option Part
  | ['/'] => some .top
  | ['.'] => some .here
  | _ => none

/-- A piece of the body as a part. -/
def bodyPart (piece : List Char) : Part :=
  if piece == ['.', '.'] then .up else .name (String.ofList piece)

def parts (p : FsPath) : List Part :=
  let (start, body) := split p.text.toList
  (startPart start).toList ++ ((pieces body).filter (!isFiller ·)).map bodyPart

/-- Whether the name starts at the top and not at the current directory. -/
def isAbsolute (p : FsPath) : Bool := p.text.toList.head? == some '/'

/-- The name without slashes at its end. -/
def trimmed (p : FsPath) : FsPath :=
  ⟨String.ofList (p.text.toList.reverse.dropWhile (· == '/')).reverse⟩

/-- The name of what another name means from this directory on. -/
def join (dir name : FsPath) : FsPath :=
  if name.isAbsolute || dir.text.isEmpty then name
  else if dir.text.toList.getLast? == some '/' then ⟨dir.text ++ name.text⟩
  else ⟨dir.text ++ "/" ++ name.text⟩

/-- The name without its last part; a name without parts, or with none but the top, has none. -/
def parent? (p : FsPath) : Option FsPath :=
  let (start, body) := split p.text.toList
  match (pieces body).reverse.dropWhile isFiller with
  | _ :: above =>
    some ⟨String.ofList (start ++ joinPieces (above.dropWhile isFiller).reverse)⟩
  | [] => if start == ['.'] then some ⟨""⟩ else none

/-- The last part, if it is a name. -/
def fileName? (p : FsPath) : Option String :=
  match p.parts.getLast? with
  | some (.name n) => some n
  | _ => none

/-- What follows the last dot of the file name. A dot in first place does not count. -/
def extension? (p : FsPath) : Option String := do
  let name := (← p.fileName?).toList.reverse
  match name.dropWhile (· != '.') with
  | '.' :: _ :: _ => some (String.ofList (name.takeWhile (· != '.')).reverse)
  | _ => none

/-- The name and, from the inside out, those of the directories around it. -/
def ancestors (p : FsPath) : List FsPath := go p (p.text.length + 1)
where
  go (p : FsPath) : Nat → List FsPath
    | 0 => [p]
    | n + 1 =>
      match p.parent? with
      | some q => p :: go q n
      | none => [p]

/-- The parts of a name below a directory; all of them if it is not below. -/
def partsBelow (p dir : FsPath) : List Part :=
  if dir.parts.isPrefixOf p.parts then p.parts.drop dir.parts.length else p.parts

end FsPath

end EnumCatalog
