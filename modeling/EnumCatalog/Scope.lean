import EnumCatalog.Import
import EnumCatalog.ModulePath

/-!
# Scopes

Every list of items, be it a file's or a module's, is a scope with imports of its own. A path that
is written in a scope is resolved to the absolute paths that it may stand for, each starting with
the name of a crate. There may be several, because it is not known what another crate exports: a
name that is neither imported nor a module may come from any path that everything is taken from,
and may also be the name of a crate.

The first name of a path decides. `crate`, `self` and `super` lead to a module; an imported name is
replaced by what it stands for; the name of a child module leads there. Only replacements that lead
back into this crate are followed further.

Imports may refer to each other in a circle, so the number of steps is bounded (`Scopes.maxSteps`).
A path whose resolution takes more steps has no meaning.
-/

set_option autoImplicit false

namespace EnumCatalog

/-- The imports of a list of items. The module is unknown if the file is in no module. -/
structure Scope where
  module? : Option ModulePath
  imports : Imports
  deriving DecidableEq, Repr

/-- A scope's place in the list of all scopes. -/
abbrev ScopeId := Nat

structure Scopes where
  list : List Scope
  deriving Repr

namespace Scopes

def get? (ss : Scopes) (id : ScopeId) : Option Scope := ss.list[id]?

/-- The number of the first scope of a module. -/
def idOf? (ss : Scopes) (m : ModulePath) : Option ScopeId :=
  ss.list.findIdx? (·.module? == some m)

/-- The module that a scope belongs to. -/
def moduleOf? (ss : Scopes) (id : ScopeId) : Option ModulePath := (ss.get? id).bind (·.module?)

/-- The number that is found for a module is that of a scope of the module. -/
theorem moduleOf?_of_idOf? {ss : Scopes} {m : ModulePath} {id : ScopeId}
    (h : ss.idOf? m = some id) : id < ss.list.length ∧ ss.moduleOf? id = some m := by
  obtain ⟨hlt, hmodule, -⟩ := List.findIdx?_eq_some_iff_getElem.mp h
  refine ⟨hlt, ?_⟩
  rw [moduleOf?, get?, List.getElem?_eq_getElem hlt]
  exact beq_iff_eq.mp hmodule

/-- The scope of the module around that of a scope. -/
def parentOf? (ss : Scopes) (id : ScopeId) : Option ScopeId := do
  ss.idOf? (← (← ss.moduleOf? id).parent?)

/-- The scope of a module within that of a scope. -/
def childOf? (ss : Scopes) (id : ScopeId) (name : String) : Option ScopeId := do
  ss.idOf? ((← ss.moduleOf? id).child name)

/-- What a name is bound to by the imports of a scope. -/
def targetOf? (ss : Scopes) (id : ScopeId) (name : String) : Option (List String) :=
  (ss.get? id).bind (·.imports.target? name)

/-- The paths from which a scope takes everything. -/
def globsOf (ss : Scopes) (id : ScopeId) : List (List String) :=
  ((ss.get? id).map (·.imports.globs)).getD []

/-- Whether a path leads into this crate by its first name. -/
def isRelative : List String → Bool
  | first :: _ => ["crate", "self", "super"].contains first
  | [] => false

/-- The number of steps that a resolution may take. -/
def maxSteps : Nat := 17

/-- The absolute paths that names in a scope may stand for, within a number of steps. -/
def resolveWithin (ss : Scopes) : Nat → ScopeId → List String → List (List String)
  | 0, _, _ => []
  | _, _, [] => []
  | n + 1, id, first :: rest =>
    let proceed (next : Option ScopeId) : List (List String) :=
      match next with
      | some id => resolveWithin ss n id rest
      | none => []
    let follow (path : List String) : List (List String) :=
      if isRelative path then resolveWithin ss n id path else [path]
    if first == "crate" then proceed (ss.idOf? .root)
    else if first == "self" then proceed (some id)
    else if first == "super" then proceed (ss.parentOf? id)
    else
      match ss.targetOf? id first with
      | some target => follow (target ++ rest)
      | none =>
        match ss.childOf? id first with
        | some child => proceed (some child)
        | none => (ss.globsOf id).flatMap (fun g => follow (g ++ first :: rest)) ++ [first :: rest]

/-- The absolute paths that a path in a scope may stand for. After a leading double colon stands the
name of a crate. -/
def resolve (ss : Scopes) (id : ScopeId) (p : Syntax.Path) : List (List String) :=
  if p.leading then [p.names] else ss.resolveWithin maxSteps id p.names

end Scopes

end EnumCatalog
