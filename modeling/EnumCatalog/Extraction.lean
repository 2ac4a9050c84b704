import EnumCatalog.Marker
import EnumCatalog.Program

/-!
# Extraction

Which enums of a program are tagged with a marker, by which paths generated code can name them, and
which database names they ask for. A candidate that cannot be named, or that carries no marker, is
left out; nothing here fails.

What becomes of each candidate is written down in a log of `Note`s, so that a missing enum can be
explained. A pass may be cancelled. Whether it is, is asked before each candidate, and the answer
may depend on how many enums have been found so far (`Cancellation`).
-/

set_option autoImplicit false

namespace EnumCatalog

open Syntax (Attribute Meta)

/-- What generated code has to know of an enum. -/
structure Descriptor where
  /-- The path from the crate root. -/
  qualifiedName : String
  /-- The database name it asks for. -/
  aliasName : Option String
  deriving DecidableEq, Repr, Inhabited

/-! ## 1. The log -/

/-- Why a candidate is left out without a look at its attributes. -/
inductive SkipReason where
  | notCompiled
  | outsideModuleTree
  | generic
  | undecided
  | notNameable
  deriving DecidableEq, Repr

def SkipReason.text : SkipReason → String
  | .notCompiled => "disabled by #[cfg]"
  | .outsideModuleTree => "not part of the crate's module tree"
  | .generic => "generic enums cannot be registered"
  | .undecided => "#[cfg] cannot be evaluated"
  | .notNameable => "not visible from the crate root"

inductive Note where
  | found (candidates files : Nat)
  | skipped (name : String) (file : FsPath) (reason : SkipReason)
  | unreferenced (marker : Marker)
  | overridden (name previous value : String)
  | untagged (name : String) (marker : Marker)
  | tagged (name : String) (aliasName : Option String)
  | cancelled
  deriving DecidableEq, Repr

def Note.text : Note → String
  | .found candidates files => s!"{candidates} candidate enum(s) in {files} file(s)"
  | .skipped name file reason => "skipped `" ++ name ++ "` in " ++ file.text ++ ": " ++ reason.text
  | .unreferenced marker => "marker `" ++ marker.text ++ "` is not referenced; nothing to generate"
  | .overridden name previous value =>
    "`" ++ name ++ "`: alias \"" ++ previous ++ "\" overridden by \"" ++ value ++ "\""
  | .untagged name marker => "`" ++ name ++ "` has no `" ++ marker.text ++ "` attribute"
  | .tagged name none => "`" ++ name ++ "` tagged, no alias"
  | .tagged name (some aliasName) => "`" ++ name ++ "` tagged, alias \"" ++ aliasName ++ "\""
  | .cancelled => "cancelled"

/-! ## 2. Attributes -/

/-- The string that a meta item gives as the database name. -/
def Syntax.Meta.aliasName? : Meta → Option String
  | .value p v => if p.isWord Marker.aliasArgument then v.stringValue? else none
  | _ => none

/-- The database name that an attribute asks for: the last one among its arguments. -/
def Syntax.Attribute.aliasName? (a : Attribute) : Option String := do
  ((← Meta.listOfTokens? (← a.arguments?)).filterMap Meta.aliasName?).getLast?

namespace Candidate

/-- Whether an attribute of the candidate is the marker. -/
def isMarker (ss : Scopes) (m : Marker) (c : Candidate) (a : Attribute) : Bool :=
  (ss.resolve c.scope a.name).any m.matchesPath

/-- The attributes that are the marker. -/
def markers (ss : Scopes) (m : Marker) (c : Candidate) : List Attribute :=
  c.enum.attrs.filter (c.isMarker ss m)

/-- The path by which generated code names the candidate, or why it has none. -/
def qualifiedName (crateName : String) (c : Candidate) : Except SkipReason String :=
  match c.module? with
  | none => .error .outsideModuleTree
  | some m =>
    if c.enum.isGeneric then .error .generic
    else if c.enabled.isNone then .error .undecided
    else if !c.visible then .error .notNameable
    else .ok (m.qualify crateName c.name)

end Candidate

/-- Notes on each database name that takes the place of a different one before it. -/
def overrides (name : String) : List String → List Note
  | a :: b :: rest =>
    (if a == b then [] else [.overridden name a b]) ++ overrides name (b :: rest)
  | _ => []

/-! ## 3. The pass -/

/-- When a pass is cancelled: never, or as soon as so many enums have been found. -/
structure Cancellation where
  after : Option Nat
  deriving DecidableEq, Repr

namespace Cancellation

/-- A pass that is never cancelled. -/
def never : Cancellation := ⟨none⟩

/-- A pass that is cancelled before it starts. -/
def atOnce : Cancellation := ⟨some 0⟩

/-- Whether the pass is cancelled by the time that so many enums have been found. -/
def isDue (c : Cancellation) (found : Nat) : Bool := c.after.any (· ≤ found)

end Cancellation

structure Extraction where
  descriptors : List Descriptor
  log : List Note
  /-- The pass was cancelled with candidates left. -/
  aborted : Bool
  deriving DecidableEq, Repr

namespace Extraction

/-- An outcome with notes in front. -/
def withNotes (notes : List Note) (e : Extraction) : Extraction := { e with log := notes ++ e.log }

/-- An outcome with a descriptor in front. -/
def withDescriptor (d : Option Descriptor) (e : Extraction) : Extraction :=
  { e with descriptors := d.toList ++ e.descriptors }

/-- What one candidate comes to: notes, and a descriptor if it is tagged and can be named. -/
def examine (ss : Scopes) (m : Marker) (crateName : String) (c : Candidate) :
    List Note × Option Descriptor :=
  match c.qualifiedName crateName with
  | .error reason => ([.skipped c.name c.file reason], none)
  | .ok name =>
    let markers := c.markers ss m
    if markers.isEmpty then ([.untagged name m], none)
    else
      let aliases := markers.filterMap Attribute.aliasName?
      let aliasName := aliases.getLast?
      (overrides name aliases ++ [.tagged name aliasName], some ⟨name, aliasName⟩)

/-- Goes through candidates, asking before each whether the pass is cancelled. -/
def pass (stop : Cancellation) (examine : Candidate → List Note × Option Descriptor) :
    Nat → List Candidate → Extraction
  | _, [] => ⟨[], [], false⟩
  | found, c :: rest =>
    if stop.isDue found then ⟨[], [.cancelled], true⟩
    else
      let (notes, d) := examine c
      (pass stop examine (found + d.toList.length) rest).withDescriptor d |>.withNotes notes

end Extraction

namespace Program

/-- The candidates that are not known to be left out of the build, each declaration once. Those left
out go first, so that a declaration which is compiled is not taken for a repetition of one that is
not. -/
def liveCandidates (p : Program) : List Candidate :=
  Candidate.dedup (p.declarations.candidates.filter (·.enabled != some false))

/-- The candidates that are left out of the build. -/
def disabledCandidates (p : Program) : List Candidate :=
  p.declarations.candidates.filter (·.enabled == some false)

/-- The enums of a program that are tagged with a marker. -/
def extract (p : Program) (m : Marker) (crateName : String) (stop : Cancellation) : Extraction :=
  let live := p.liveCandidates
  let opening := .found live.length p.files.length ::
    p.disabledCandidates.map fun c => .skipped c.name c.file .notCompiled
  if p.mentions m.crateName then
    (Extraction.pass stop (Extraction.examine p.scopes m crateName) 0 live).withNotes opening
  else ⟨[], opening ++ [.unreferenced m], false⟩

end Program

end EnumCatalog
