import EnumCatalog.ModuleTree
import EnumCatalog.Program

/-!
# Loading a program

A program is loaded from directories. Every source file below them becomes a file of the program, in
the order of names. Which module a file is comes from the module tree of its crate; files that the
tree does not have are loaded without a module, and those that cannot be read are skipped.

The source root of a crate is the nearest directory named `src` at or above the one that is scanned,
so scanning a part of a crate gives its files the same modules.
-/

set_option autoImplicit false

namespace EnumCatalog

namespace Loading

/-- The directory in which a crate's root file is sought. -/
def sourceRoot (scanPath : FsPath) : FsPath :=
  (scanPath.ancestors.find? (·.fileName? == some "src")).getD scanPath

/-- Whether a file is no source because of where it stands: generated output and the output of
builds below the directory that is scanned. -/
def isExcluded (scanPath file : FsPath) : Bool :=
  (file.partsBelow scanPath).any fun p => p == .name "generated" || p == .name "target"

/-- The source files below a directory. -/
def sourceFiles (d : Disk) (scanPath : FsPath) : List FsPath :=
  (d.filesUnder scanPath).filter fun f =>
    f.extension? == some "rs" && !isExcluded scanPath f

/-- What a file comes to: a file of the program, or a report. -/
def loadFile (d : Disk) (tree : ModuleTree) (file : FsPath) : Except Event SourceUnit :=
  match (d.canonical? file).bind tree.at? with
  | some f => .ok ⟨file, some f.module, f.exported, f.source⟩
  | none =>
    match d.readText? file with
    | none => .error (.fileUnreadable file)
    | some text =>
      match Syntax.SourceFile.parse? text with
      | none => .error (.fileMalformed file)
      | some source => .ok ⟨file, none, false, source⟩

/-- The files of a directory, and the reports on the way. -/
structure Scan where
  files : List SourceUnit
  events : List Event

/-- Loads the files below a directory. -/
def scan (d : Disk) (o : Cfg.Options) (scanPath : FsPath) : Scan :=
  let found := ModuleTree.ofRoot d o (sourceRoot scanPath)
  let outcomes := (sourceFiles d scanPath).map (loadFile d found.tree)
  { files := outcomes.filterMap fun
      | .ok u => some u
      | .error _ => none
    events := found.events ++ outcomes.filterMap fun
      | .ok _ => none
      | .error e => some e }

/-- Loads the files below directories, up to the first that is none. -/
def scanAll (d : Disk) (o : Cfg.Options) :
    List FsPath → List Event × Except FsPath (List SourceUnit)
  | [] => ([], .ok [])
  | p :: rest =>
    if d.isDirectory p then
      let s := scan d o p
      let (events, files) := scanAll d o rest
      (s.events ++ events, files.map (s.files ++ ·))
    else ([], .error p)

end Loading

/-- Loads a program from directories. A name that is no directory is the error. -/
def Program.load (d : Disk) (o : Cfg.Options) (scanPaths : List FsPath) :
    List Event × Except FsPath Program :=
  match Loading.scanAll d o scanPaths with
  | (events, .ok files) => (events ++ [.filesLoaded files.length], .ok ⟨files, o⟩)
  | (events, .error p) => (events, .error p)

def Loading.notDirectoryMessage (p : FsPath) : String :=
  "Scan path " ++ p.text ++ " is not a directory"

end EnumCatalog
