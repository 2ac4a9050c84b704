import EnumCatalog.Cfg
import EnumCatalog.Disk
import EnumCatalog.Event

/-!
# Module trees

Which files belong to a crate, and which module each of them is. The tree starts at the root file,
and every declaration of a module without a body leads to one more file. A declaration counts if its
`cfg` attributes are known to hold, and so do the ones of the modules around it.

Two directories decide where a declared module is looked for (`ModulePlace`): an attribute that
names a file is read from the directory of the declaring file, or of the module in braces that it
stands in; otherwise the file is sought below the directory of the declaring module.

Declarations may lead in circles. So files are told apart by their locations, and a file that has
been reached is not read again. Each round of the search reaches a new file, so there are no more
rounds than files (`ModuleTree.search`).
-/

set_option autoImplicit false

namespace EnumCatalog

open Syntax (Attribute Item Meta ModuleHead)

/-! ## 1. Declarations of modules -/

/-- A module whose file is still to be read. -/
structure Pending where
  file : FsPath
  module : ModulePath
  /-- The module and every one around it can be named from the crate root. -/
  exported : Bool
  /-- Where the files of the module's own modules are. -/
  childrenDir : FsPath
  deriving Inhabited

/-- What a declaration of a module comes to. -/
inductive Declared where
  /-- It is left out, or may be. -/
  | disabled (m : ModulePath)
  | pending (p : Pending)

/-- Where a list of items stands that may declare modules. -/
structure ModulePlace where
  module : ModulePath
  exported : Bool
  /-- The directory from which attributes name files. -/
  baseDir : FsPath
  /-- The directory in which files are sought by the names of modules. -/
  childrenDir : FsPath

/-- The file that an attribute names. -/
def Syntax.Attribute.pathValue? (a : Attribute) : Option String :=
  match a.content with
  | .value p v => if p.isWord "path" then v.stringValue? else none
  | _ => none

/-- The file that the first such attribute of a module names. -/
def Syntax.ModuleHead.pathValue? (h : ModuleHead) : Option String :=
  h.attrs.findSome? Attribute.pathValue?

def FsPath.directory (p : FsPath) : FsPath := p.parent?.getD ⟨""⟩

namespace ModulePlace

/-- The place of the items of a file. -/
def ofPending (p : Pending) : ModulePlace := ⟨p.module, p.exported, p.file.directory, p.childrenDir⟩

/-- Whether a module here can be named from the crate root. -/
def exports (p : ModulePlace) (h : ModuleHead) : Bool :=
  p.exported && p.module.nameableFromRoot h.vis

/-- The place within a module in braces. -/
def within (p : ModulePlace) (h : ModuleHead) : ModulePlace :=
  let dir := p.childrenDir.join ⟨h.pathValue?.getD h.ident.name⟩
  ⟨p.module.child h.ident.name, p.exports h, dir, dir⟩

/-- The file of a module without a body, and where its own modules are sought. -/
def fileOf (d : Disk) (p : ModulePlace) (h : ModuleHead) : FsPath × FsPath :=
  match h.pathValue? with
  | some path =>
    let file := p.baseDir.join ⟨path⟩
    (file, file.directory)
  | none =>
    let name := h.ident.name
    let flat := p.childrenDir.join ⟨name ++ ".rs"⟩
    let dir := p.childrenDir.join ⟨name⟩
    if d.isFile flat then (flat, dir) else (dir.join ⟨"mod.rs"⟩, dir)

/-- The module that a declaration without a body leads to. -/
def pendingOf (d : Disk) (p : ModulePlace) (h : ModuleHead) : Pending :=
  let (file, childrenDir) := p.fileOf d h
  ⟨file, p.module.child h.ident.name, p.exports h, childrenDir⟩

/-- Whether a module is known to be compiled. -/
def isEnabled (o : Cfg.Options) (h : ModuleHead) : Bool := o.enabled h.attrs == some true

mutual

/-- What the declarations of modules in an item come to. -/
def declared (d : Disk) (o : Cfg.Options) (p : ModulePlace) : Item → List Declared
  | .fileModule h =>
    if isEnabled o h then [.pending (p.pendingOf d h)]
    else [.disabled (p.module.child h.ident.name)]
  | .inlineModule h items =>
    if isEnabled o h then declaredIn d o (p.within h) items
    else [.disabled (p.module.child h.ident.name)]
  | _ => []

/-- What the declarations of modules in items come to. -/
def declaredIn (d : Disk) (o : Cfg.Options) (p : ModulePlace) : List Item → List Declared
  | [] => []
  | i :: rest => declared d o p i ++ declaredIn d o p rest

end

end ModulePlace

/-! ## 2. The tree -/

/-- A file that the crate root leads to. -/
structure TreeFile where
  location : Location
  module : ModulePath
  exported : Bool
  source : Syntax.SourceFile
  deriving Inhabited

/-- The files that have been reached. -/
abbrev ModuleTree := List TreeFile

namespace ModuleTree

def at? (t : ModuleTree) (l : Location) : Option TreeFile := t.find? (·.location == l)

/-- The files of a search and what it reported. -/
structure Found where
  tree : ModuleTree
  events : List Event

namespace Found

/-- What a search has found when nothing is left to look at. -/
def empty : Found := ⟨[], []⟩

/-- What has been found, with a report in front. -/
def withEvents (events : List Event) (f : Found) : Found := { f with events := events ++ f.events }

/-- What has been found, with a file in front. -/
def withFile (file : TreeFile) (f : Found) : Found := { f with tree := file :: f.tree }

end Found

/-- Reads the file of a module. -/
def load? (d : Disk) (p : Pending) : Option TreeFile := do
  let location ← d.canonical? p.file
  let source ← Syntax.SourceFile.parse? (← d.readText? p.file)
  return ⟨location, p.module, p.exported, source⟩

def disabledEvents (ds : List Declared) : List Event :=
  ds.filterMap fun
    | .disabled m => some (.moduleDisabled m)
    | .pending _ => none

/-- The modules among declarations that are still to be read. -/
def pendingOf (ds : List Declared) : List Pending :=
  ds.filterMap fun
    | .disabled _ => none
    | .pending p => some p

/-- Takes the first pending module whose file can be read and has not been reached. What comes after
that is asked of `next`, with the locations that have been reached by then and the pending modules;
the last one declared goes first. -/
def round (d : Disk) (o : Cfg.Options) (next : List Location → List Pending → Found)
    (reached : List Location) : List Pending → Found
  | [] => .empty
  | p :: rest =>
    if (d.canonical? p.file).any reached.contains then round d o next reached rest
    else
      match load? d p with
      | none => (round d o next reached rest).withEvents [.moduleNotLoaded p.module]
      | some file =>
        let declared := ModulePlace.declaredIn d o (.ofPending p) file.source.items
        (next (file.location :: reached) ((pendingOf declared).reverse ++ rest)).withEvents
          (disabledEvents declared) |>.withFile file

/-- Searches for at most so many files. -/
def searchWithin (d : Disk) (o : Cfg.Options) : Nat → List Location → List Pending → Found
  | 0 => fun _ _ => .empty
  | n + 1 => round d o (searchWithin d o n)

/-- The number of files on a disk. -/
def fileCount (d : Disk) : Nat := (Disk.filesIn ⟨""⟩ d.entries).length

/-- Searches from pending modules on. One round more than there are files finds that nothing is
left. -/
def search (d : Disk) (o : Cfg.Options) (pending : List Pending) : Found :=
  searchWithin d o (fileCount d + 1) [] pending

/-- The names that the root file of a crate may have, the preferred one first. -/
def rootNames : List FsPath := [⟨"lib.rs"⟩, ⟨"main.rs"⟩]

/-- The root file of a crate as a pending module. -/
def rootIn? (d : Disk) (root : FsPath) : Option Pending := do
  let file ← (rootNames.map root.join).find? d.isFile
  return ⟨file, .root, true, root⟩

/-- The module tree of the crate whose root file is in a directory. -/
def ofRoot (d : Disk) (o : Cfg.Options) (root : FsPath) : Found :=
  search d o (rootIn? d root).toList

end ModuleTree

end EnumCatalog
