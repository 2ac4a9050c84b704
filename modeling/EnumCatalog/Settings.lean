import EnumCatalog.FsPath
import EnumCatalog.Marker
import EnumCatalog.Toml.Document

/-!
# Settings in a manifest

The settings of the generator can stand in the manifest of a package, as the table
`package.metadata.pgenum`. Around that table anything goes; within it, a key that is no setting is
an error, so that a slip of the pen does not go unnoticed. What is not set has a default.

A record may be written as an array instead of a table, its fields in order.
-/

set_option autoImplicit false

namespace EnumCatalog

open Toml (Value)

structure Settings where
  scanPaths : List FsPath
  outputFile : Option FsPath
  /-- What the paths of enums start with. -/
  crateName : String
  runtimeCrate : String
  marker : String
  /-- The log goes into the artifact. -/
  diagnostics : Bool
  deriving DecidableEq, Repr

namespace Settings

/-- The settings that hold unless others are given. -/
def standard : Settings := ⟨[], none, "crate", "::pgenum", Marker.standard.text, false⟩

/-- The keys of the settings in the order of the fields. -/
def keys : List String :=
  ["scan-paths", "output-file", "crate-name", "runtime-crate", "marker", "diagnostics"]

/-- The value of a field: what is written there, which has to be of the right type, or else the
default. -/
def fieldOr {α : Type} (entries : List (String × Value)) (key : String) (read : Value → Option α)
    (standard : α) : Option α :=
  match entries.lookup key with
  | some v => read v
  | none => some standard

/-- The settings that a table gives. -/
def ofEntries (entries : List (String × Value)) : Option Settings := do
  guard (entries.all fun e => keys.contains e.1)
  return {
    scanPaths := ← fieldOr entries "scan-paths" (fun v => v.strings?.map (·.map FsPath.mk)) []
    outputFile := ← fieldOr entries "output-file" (fun v => v.string?.map (some ⟨·⟩)) none
    crateName := ← fieldOr entries "crate-name" Value.string? standard.crateName
    runtimeCrate := ← fieldOr entries "runtime-crate" Value.string? standard.runtimeCrate
    marker := ← fieldOr entries "marker" Value.string? standard.marker
    diagnostics := ← fieldOr entries "diagnostics" Value.boolean? standard.diagnostics }

/-- The settings that a value gives. -/
def ofValue : Value → Option Settings
  | .table entries => ofEntries entries
  | .array vs => ofEntries (keys.zip vs)
  | _ => none

/-- The field of a record that has no other fields of interest; none if the value is no record. A
date counts as a record without the field. -/
def onlyField (key : String) : Value → Option (Option Value)
  | .table entries => some (entries.lookup key)
  | .array (v :: _) => some (some v)
  | .dateTime => some none
  | _ => none

/-- Goes on with a field that may be missing. -/
def throughField {α : Type} (key : String) (read : Value → Option (Option α)) (v : Value) :
    Option (Option α) :=
  match onlyField key v with
  | some (some inner) => read inner
  | some none => some none
  | none => none

/-- The settings in a manifest; the inner option is none if there are none. -/
def ofManifest? (text : String) : Option (Option Settings) := do
  let manifest ← Toml.parse? text
  throughField "package"
    (throughField "metadata" (throughField "pgenum" fun v => (ofValue v).map some)) manifest

/-- The wording of the error in a manifest. -/
def manifestMessage : String := "Invalid [package.metadata.pgenum] table"

end Settings

end EnumCatalog
