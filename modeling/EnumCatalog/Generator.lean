import EnumCatalog.Artifact
import EnumCatalog.Loading
import EnumCatalog.Settings

/-!
# The generator

A generation loads a program from directories, extracts the tagged enums and renders the artifact
(`Generator.generate`); a run also brings the artifact to disk (`Generator.run`). A run writes only
if what is there differs, so that nothing is built anew without need, and a cancelled run leaves
everything as it is.

Whatever can go wrong has a constructor in `Generator.Error`. The checks come in a fixed order: the
marker, the path of the runtime crate, the directories, the names of the enums.
-/

set_option autoImplicit false

namespace EnumCatalog

abbrev Environment := List (String × String)

/-- A generator with all that can be set. -/
structure Generator where
  scanPaths : List FsPath
  outputFile : Option FsPath
  crateName : String
  runtimeCrate : String
  marker : String
  diagnostics : Bool
  cancellation : Cancellation
  /-- The options that programs are compiled with; if none are given, the environment has them. -/
  options : Option Cfg.Options
  /-- Whether the build tool is told to run the generator again when sources change. -/
  rerun : Option Bool

namespace Generator

/-- The generator with nothing set. -/
def standard : Generator where
  scanPaths := []
  outputFile := none
  crateName := Settings.standard.crateName
  runtimeCrate := Settings.standard.runtimeCrate
  marker := Settings.standard.marker
  diagnostics := false
  cancellation := .never
  options := none
  rerun := none

/-- The generator with settings whose relative paths start at a directory. -/
def ofSettings (s : Settings) (dir : FsPath) : Generator :=
  { standard with
    scanPaths := if s.scanPaths.isEmpty then [dir.join ⟨"src"⟩] else s.scanPaths.map dir.join
    outputFile := s.outputFile.map dir.join
    crateName := s.crateName
    runtimeCrate := s.runtimeCrate
    marker := s.marker
    diagnostics := s.diagnostics }

/-! ## 1. Settings from a manifest -/

/-- Why no settings can be had. -/
inductive ManifestError where
  /-- The environment does not say where the manifest is. -/
  | unknownPlace
  | unreadable (manifest : FsPath)
  | malformed (manifest : FsPath)
  deriving DecidableEq, Repr

def ManifestError.message : ManifestError → String
  | .unknownPlace => "CARGO_MANIFEST_DIR is not set; call this from a build script"
  | .unreadable m => "Failed to read " ++ m.text
  | .malformed m => "Failed to parse " ++ m.text ++ ": " ++ Settings.manifestMessage

/-- The generator with the settings in the manifest of a package. -/
def ofPackage (d : Disk) (dir : FsPath) : Except ManifestError Generator :=
  let manifest := dir.join ⟨"Cargo.toml"⟩
  match d.readText? manifest with
  | none => .error (.unreadable manifest)
  | some text =>
    match Settings.ofManifest? text with
    | none => .error (.malformed manifest)
    | some s => .ok (ofSettings (s.getD .standard) dir)

/-- The generator with the settings of the package that is being built. -/
def ofEnvironment (d : Disk) (env : Environment) : Except ManifestError Generator :=
  match env.lookup "CARGO_MANIFEST_DIR" with
  | some dir => ofPackage d ⟨dir⟩
  | none => .error .unknownPlace

/-! ## 2. What is not set -/

/-- The directories that are scanned. -/
def effectiveScanPaths (g : Generator) : List FsPath :=
  if g.scanPaths.isEmpty then [⟨"src/"⟩] else g.scanPaths

/-- The file name of the artifact. -/
def artifactName : FsPath := ⟨"pgenum_helper.rs"⟩

/-- The directory that a build tool provides for output. -/
def outputDirectory? (env : Environment) : Option FsPath := (env.lookup "OUT_DIR").map FsPath.mk

/-- The file that the artifact goes to. -/
def effectiveOutputFile (g : Generator) (env : Environment) : FsPath :=
  match g.outputFile, outputDirectory? env with
  | some file, _ => file
  | none, some dir => dir.join artifactName
  | none, none => FsPath.join ⟨"src/generated"⟩ artifactName

/-- Whether the build tool is told about the sources: by default only if there is one. -/
def effectiveRerun (g : Generator) (env : Environment) : Bool :=
  g.rerun.getD (outputDirectory? env).isSome

/-- The options that programs are compiled with. -/
def effectiveOptions (g : Generator) (env : Environment) : Cfg.Options :=
  g.options.getD (.ofEnvironment env)

/-! ## 3. Generation -/

/-- Why a generation or a run fails. -/
inductive Error where
  | marker (e : Marker.Error)
  | runtimeCrate (path : String)
  | notDirectory (scanPath : FsPath)
  | artifact (e : Artifact.Error)
  | makeDirectory (dir : FsPath)
  | write (file : FsPath)
  deriving DecidableEq, Repr

def Error.message : Error → String
  | .marker e => e.message
  | .runtimeCrate path => "Invalid runtime crate path `" ++ path ++ "`"
  | .notDirectory p => Loading.notDirectoryMessage p
  | .artifact e => e.message
  | .makeDirectory dir => "Failed to create directory " ++ dir.text
  | .write file => "Failed to write " ++ file.text

structure Generated where
  /-- The artifact; none if the pass was cancelled. -/
  code : Option String
  descriptors : List Descriptor
  aborted : Bool
  deriving DecidableEq, Repr

/-- The outcome of something that reports events and may fail. -/
structure Reported (α : Type) where
  events : List Event
  result : Except Error α

/-- Extracts the tagged enums of a program and renders the artifact. -/
def generateFrom (g : Generator) (marker : Marker) (runtime : Syntax.Path) (p : Program) :
    Reported Generated :=
  let e := p.extract marker g.crateName g.cancellation
  if e.aborted then
    ⟨[.passCancelled e.descriptors.length], .ok ⟨none, e.descriptors, true⟩⟩
  else
    let log := if g.diagnostics then some (e.log.map Note.text) else none
    match Artifact.render e.descriptors runtime log with
    | .ok code => ⟨[], .ok ⟨some code, e.descriptors, false⟩⟩
    | .error e => ⟨[], .error (.artifact e)⟩

/-- Loads, extracts and renders. Nothing is written. -/
def generate (g : Generator) (d : Disk) (env : Environment) : Reported Generated :=
  match Marker.parse g.marker with
  | .error e => ⟨[], .error (.marker e)⟩
  | .ok marker =>
    match Syntax.Path.parse? g.runtimeCrate with
    | none => ⟨[], .error (.runtimeCrate g.runtimeCrate)⟩
    | some runtime =>
      match Program.load d (g.effectiveOptions env) g.effectiveScanPaths with
      | (events, .error p) => ⟨events, .error (.notDirectory p)⟩
      | (events, .ok p) =>
        let r := g.generateFrom marker runtime p
        { r with events := events ++ r.events }

/-! ## 4. Runs -/

structure Report where
  outputFile : FsPath
  /-- The number of enums in the artifact. -/
  enums : Nat
  /-- The artifact was not up to date. -/
  written : Bool
  aborted : Bool
  deriving DecidableEq, Repr

/-- The outcome of a run: the disk after it, the lines for the build tool, and the rest. -/
structure Run where
  disk : Disk
  printed : List String
  reported : Reported Report

/-- Brings an artifact to disk unless it is there. If the directory for it cannot be made, those
around it that were made before stay. -/
def install (d : Disk) (output : FsPath) (code : String) : Disk × Except Error Bool :=
  match output.parent?.elim (some d) d.makeDirectories with
  | none =>
    (d.makeEach (Disk.directoriesTo output.directory), .error (.makeDirectory output.directory))
  | some d =>
    if d.readText? output == some code then (d, .ok false)
    else
      match d.write output (.text code) with
      | none => (d, .error (.write output))
      | some d => (d, .ok true)

/-- The lines that tell the build tool about the sources. -/
def rerunLines (g : Generator) (env : Environment) : List String :=
  if g.effectiveRerun env then
    g.effectiveScanPaths.map fun p => "cargo:rerun-if-changed=" ++ p.text
  else []

/-- Generates the artifact and brings it to disk. -/
def run (g : Generator) (d : Disk) (env : Environment) : Run :=
  let output := g.effectiveOutputFile env
  let printed := g.rerunLines env
  let r := g.generate d env
  match r.result with
  | .error e => ⟨d, printed, r.events, .error e⟩
  | .ok generated =>
    let enums := generated.descriptors.length
    match generated.code with
    | none =>
      ⟨d, printed, r.events ++ [.outputUntouched output], .ok ⟨output, enums, false, true⟩⟩
    | some code =>
      match install d output code with
      | (d, .error e) => ⟨d, printed, r.events, .error e⟩
      | (d, .ok false) => ⟨d, printed, r.events, .ok ⟨output, enums, false, false⟩⟩
      | (d, .ok true) =>
        ⟨d, printed, r.events ++ [.outputWritten output enums], .ok ⟨output, enums, true, false⟩⟩

end Generator

end EnumCatalog
