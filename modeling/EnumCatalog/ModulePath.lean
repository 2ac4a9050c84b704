import EnumCatalog.Syntax.Source

/-!
# Module paths

Where in its crate a module stands: the names of the modules from the crate root down to it. The
root is the path without names.

A name is kept without raw mark. Where a module path is written out as code, a name that is no
valid identifier by itself gets the mark (`qualify`).
-/

set_option autoImplicit false

namespace EnumCatalog

open Syntax (Visibility)

/-- The names of the modules from the crate root to a module. -/
structure ModulePath where
  names : List String
  deriving DecidableEq, Repr, Inhabited

namespace ModulePath

def root : ModulePath := ⟨[]⟩

/-- Whether the path is that of the crate root. -/
def isRoot (p : ModulePath) : Bool := p.names.isEmpty

/-- The path of a module within this one. -/
def child (p : ModulePath) (name : String) : ModulePath := ⟨p.names ++ [name]⟩

/-- The path of the module around this one; the root has none. -/
def parent? (p : ModulePath) : Option ModulePath :=
  if p.isRoot then none else some ⟨p.names.dropLast⟩

/-- The path for a reader's eyes. -/
def text (p : ModulePath) : String :=
  if p.isRoot then "<crate root>" else String.intercalate "::" p.names

/-- A name as a segment of a path: it gets a raw mark if it is no identifier without one. -/
def segmentText (name : String) : String :=
  if (Syntax.Ident.parse? name).isSome then name else "r#" ++ name

/-- The path of an item of this module, from a crate name on. -/
def qualify (p : ModulePath) (crateName item : String) : String :=
  String.intercalate "::" (crateName :: (p.names ++ [item]).map segmentText)

/-- Whether an item of this module with a visibility can be named from the crate root. A
restriction other than to the whole crate reaches the root only if it is to the root itself: `self`
in the root, and `super` in the root or in a module directly below. A restriction by a longer path
is never taken to reach it. -/
def nameableFromRoot (p : ModulePath) : Visibility → Bool
  | .everyone => true
  | .inherited => p.isRoot
  | .within _ path =>
    if path.isWord "crate" then true
    else if path.isWord "self" then p.isRoot
    else if path.isWord "super" then p.names.length ≤ 1
    else false

end ModulePath

end EnumCatalog
