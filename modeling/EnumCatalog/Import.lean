import EnumCatalog.Syntax.Source

/-!
# Imports

What `use` and `extern crate` declarations bring into scope. A nested declaration stands for a list
of single imports: `use a::{b, c::*};` binds `b` to `a::b` and brings in everything of `a::c`. So
the imports of a module are a flat list in source order (`Item.imports`), and the two questions
about it are answered by looking through that list: what a name stands for (`Imports.target?`) and
which paths everything is taken from (`Imports.globs`).

Names are compared without raw mark.
-/

set_option autoImplicit false

namespace EnumCatalog

open Syntax (Item UseTree)

/-- One name, or everything of one path. -/
inductive Import where
  /-- The name stands for the path. -/
  | binding (name : String) (target : List String)
  /-- Everything that the path holds is in scope. -/
  | glob (source : List String)
  deriving DecidableEq, Repr

/-- The imports of a module in source order. -/
abbrev Imports := List Import

namespace Import

/-- What a name that is imported by its own or another name stands for. An underscore names
nothing. -/
def bindingOf (name : String) (target : List String) : Imports :=
  if name == "_" then [] else [.binding name target]

end Import

namespace Syntax

namespace UseTree

mutual

/-- The single imports that a tree stands for below a path. The word `self` stands for the path
itself. -/
def imports (above : List String) : UseTree → Imports
  | .path i rest => rest.imports (above ++ [i.name])
  | .name i =>
    if i.name == "self" then
      match above.getLast? with
      | some last => [.binding last above]
      | none => []
    else [.binding i.name (above ++ [i.name])]
  | .rename i r =>
    Import.bindingOf r.name (if i.name == "self" then above else above ++ [i.name])
  | .glob => [.glob above]
  | .group ts _ => importsAll above ts

@[inherit_doc imports]
def importsAll (above : List String) : List UseTree → Imports
  | [] => []
  | t :: ts => t.imports above ++ importsAll above ts

end

end UseTree

/-- The name of a crate and what it stands for: the crate itself goes by the word `crate` in
paths. -/
def ExternCrate.imports (x : ExternCrate) : Imports :=
  Import.bindingOf ((x.rename.getD x.ident).name)
    [if x.ident.name == "self" then "crate" else x.ident.name]

/-- The imports of an item. Those within the item are not its own. -/
def Item.imports : Item → Imports
  | .use u => u.tree.imports []
  | .externCrate x => x.imports
  | _ => []

end Syntax

namespace Imports

/-- The imports of a list of items. -/
def ofItems (items : List Item) : Imports := items.flatMap Item.imports

/-- The path that an import gives to a name. -/
def targetIn (name : String) : Import → Option (List String)
  | .binding n target => if n == name then some target else none
  | .glob _ => none

/-- What a name stands for. The last import of a name decides. -/
def target? (is : Imports) (name : String) : Option (List String) :=
  (is.filterMap (targetIn name)).getLast?

/-- The path that everything is taken from. -/
def globSource : Import → Option (List String)
  | .binding _ _ => none
  | .glob source => some source

/-- The paths that everything is taken from, in source order. -/
def globs (is : Imports) : List (List String) := is.filterMap globSource

end Imports

end EnumCatalog
