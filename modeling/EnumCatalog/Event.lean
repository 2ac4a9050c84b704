import EnumCatalog.FsPath
import EnumCatalog.ModulePath

/-!
# Events

What a generation reports while it runs, in the order in which it happens.
-/

set_option autoImplicit false

namespace EnumCatalog

inductive Level where
  | debug
  | info
  | warn
  deriving DecidableEq, Repr

def Level.text : Level → String
  | .debug => "debug"
  | .info => "info"
  | .warn => "warn"

inductive Event where
  /-- A module is left out of the build, or may be. -/
  | moduleDisabled (m : ModulePath)
  /-- The file of a module is missing or no source file. -/
  | moduleNotLoaded (m : ModulePath)
  | fileUnreadable (file : FsPath)
  | fileMalformed (file : FsPath)
  | filesLoaded (count : Nat)
  /-- The pass has been cancelled after so many enums. -/
  | passCancelled (count : Nat)
  | outputUntouched (output : FsPath)
  | outputWritten (output : FsPath) (count : Nat)
  deriving DecidableEq, Repr

namespace Event

def level : Event → Level
  | .moduleDisabled _ => .debug
  | .moduleNotLoaded _ => .debug
  | .fileUnreadable _ => .warn
  | .fileMalformed _ => .warn
  | .filesLoaded _ => .debug
  | .passCancelled _ => .warn
  | .outputUntouched _ => .warn
  | .outputWritten _ _ => .info

def text : Event → String
  | .moduleDisabled m => "module `" ++ m.text ++ "` disabled or undecided by #[cfg]"
  | .moduleNotLoaded m => "module `" ++ m.text ++ "` not loaded"
  | .fileUnreadable file => "skipping " ++ file.text ++ ": Failed to read"
  | .fileMalformed file => "skipping " ++ file.text ++ ": Failed to parse"
  | .filesLoaded count => s!"loaded {count} source files"
  | .passCancelled count => s!"generation cancelled after {count} enum(s)"
  | .outputUntouched output => "generation cancelled, " ++ output.text ++ " left untouched"
  | .outputWritten output count => "generated " ++ output.text ++ s!" with {count} enums"

end Event

end EnumCatalog
