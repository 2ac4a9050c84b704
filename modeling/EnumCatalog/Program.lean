import EnumCatalog.Cfg
import EnumCatalog.FsPath
import EnumCatalog.Scope

/-!
# Programs

A program is a list of source files, each with the module it defines, if it defines one. Going
through its items yields two things at once: the *scopes*, one for each list of items, and the
*candidates*, which are the enums that carry an attribute of any kind (`Program.declarations`).
Which attribute it is will be asked later, because that takes all the scopes.

On the way down to a candidate three facts add up: in which module it stands, whether it can be
named from the crate root, and whether it is compiled (`Place`). Bodies of functions are not
entered.
-/

set_option autoImplicit false

namespace EnumCatalog

open Syntax (Item Enum Visibility ModuleHead)

/-- A source file of a program. -/
structure SourceUnit where
  path : FsPath
  /-- The module that the file defines; none if the crate root does not lead to the file. -/
  module? : Option ModulePath
  /-- Every module from the crate root down to this one can be named from the root. -/
  exported : Bool
  source : Syntax.SourceFile
  deriving Inhabited

/-- A program: its files in order, and the options that it is compiled with. -/
structure Program where
  files : List SourceUnit
  options : Cfg.Options
  deriving Inhabited

structure Candidate where
  file : FsPath
  module? : Option ModulePath
  scope : ScopeId
  enum : Enum
  /-- The enum and every module around it can be named from the crate root. -/
  visible : Bool
  /-- Whether the enum and the modules around it in its file are compiled. -/
  enabled : Cfg.Verdict
  deriving Inhabited

namespace Candidate

def name (c : Candidate) : String := c.enum.ident.name

/-- What makes two candidates the same declaration: the name together with the module, or with the
file if there is no module. -/
inductive Key where
  | inModule (m : ModulePath) (name : String)
  | inFile (file : List FsPath.Part) (name : String)
  deriving DecidableEq

def key (c : Candidate) : Key :=
  match c.module? with
  | some m => .inModule m c.name
  | none => .inFile c.file.parts c.name

/-- Keeps those whose key is not among the given ones and not that of an earlier candidate. -/
def dedupAgainst (seen : List Key) : List Candidate → List Candidate
  | [] => []
  | c :: rest =>
    if seen.contains c.key then dedupAgainst seen rest
    else c :: dedupAgainst (c.key :: seen) rest

/-- The first candidate of each key. -/
def dedup (cs : List Candidate) : List Candidate := dedupAgainst [] cs

end Candidate

/-! ## Going through the items -/

/-- Where a list of items stands. -/
structure Place where
  file : FsPath
  module? : Option ModulePath
  exported : Bool
  enabled : Cfg.Verdict

namespace Place

/-- Whether something in this place can be named from the crate root. -/
def exports (p : Place) (vis : Visibility) : Bool :=
  p.exported && p.module?.any (·.nameableFromRoot vis)

/-- The place within a module in braces. -/
def within (p : Place) (o : Cfg.Options) (h : ModuleHead) : Place where
  file := p.file
  module? := p.module?.map (·.child h.ident.name)
  exported := p.exports h.vis
  enabled := p.enabled.and (o.enabled h.attrs)

/-- The place of a file's items. -/
def ofUnit (u : SourceUnit) : Place := ⟨u.path, u.module?, u.exported, some true⟩

end Place

/-- Candidates, and the scopes that their numbers refer to. -/
structure Declarations where
  scopes : List Scope
  candidates : List Candidate

namespace Declarations

def empty : Declarations := ⟨[], []⟩

instance : Append Declarations :=
  ⟨fun a b => ⟨a.scopes ++ b.scopes, a.candidates ++ b.candidates⟩⟩

/-- Whether an enum is a candidate. -/
def isCandidate (e : Enum) : Bool := !e.attrs.isEmpty

/-- The candidate that an enum in a scope is. -/
def ofEnum (o : Cfg.Options) (p : Place) (scope : ScopeId) (e : Enum) : Declarations :=
  if isCandidate e then
    ⟨[], [⟨p.file, p.module?, scope, e, p.exports e.vis, p.enabled.and (o.enabled e.attrs)⟩]⟩
  else empty

mutual

/-- The declarations of an item in a scope. New scopes are numbered from `next` on. -/
def ofItem (o : Cfg.Options) (p : Place) (scope next : ScopeId) : Item → Declarations
  | .enum e => ofEnum o p scope e
  | .inlineModule h items =>
    ⟨[⟨(p.within o h).module?, .ofItems items⟩], []⟩ ++
      ofItems o (p.within o h) next (next + 1) items
  | _ => empty

/-- The declarations of the items of a scope. -/
def ofItems (o : Cfg.Options) (p : Place) (scope next : ScopeId) : List Item → Declarations
  | [] => empty
  | i :: rest =>
    let first := ofItem o p scope next i
    first ++ ofItems o p scope (next + first.scopes.length) rest

end

/-- The declarations of a file, with scopes numbered from `next` on. -/
def ofUnit (o : Cfg.Options) (next : ScopeId) (u : SourceUnit) : Declarations :=
  ⟨[⟨u.module?, .ofItems u.source.items⟩], []⟩ ++
    ofItems o (.ofUnit u) next (next + 1) u.source.items

def ofUnits (o : Cfg.Options) (next : ScopeId) : List SourceUnit → Declarations
  | [] => empty
  | u :: rest =>
    let first := ofUnit o next u
    first ++ ofUnits o (next + first.scopes.length) rest

end Declarations

namespace Program

def empty (o : Cfg.Options) : Program := ⟨[], o⟩

/-- Adds a source text as a file; none if the text cannot be read. The file's module is taken to be
nameable from the crate root. -/
def addSource? (p : Program) (path : FsPath) (module? : Option ModulePath) (text : String) :
    Option Program := do
  return { p with files := p.files ++ [⟨path, module?, true, ← Syntax.SourceFile.parse? text⟩] }

/-- The candidates of a program in source order, and its scopes. -/
def declarations (p : Program) : Declarations := .ofUnits p.options 0 p.files

def scopes (p : Program) : Scopes := ⟨p.declarations.scopes⟩

/-- Whether any file mentions a crate: in a `use` or `extern crate` declaration, or as the first
name of a path. -/
def mentions (p : Program) (crateName : String) : Bool :=
  p.files.any (·.source.mentions.contains crateName)

end Program

end EnumCatalog
