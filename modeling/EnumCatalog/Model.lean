import EnumCatalog.EnumType
import EnumCatalog.Ordered
import EnumCatalog.Sql.EnumDecl

/-!
# The database model

The enum types that a database shall have. A type of the database is known by its schema and its
name, so declaring one a second time replaces its labels where it stands, whichever enum declares
it.

The table's values are the declarations themselves and its keys are read off them (`declare`), which
is why `find?` needs no second lookup.
-/

set_option autoImplicit false

namespace EnumCatalog

open Sql (EnumDecl)

/-- The declared database enum types, in the order in which each was first declared. -/
structure Model where
  table : Ordered (Option String × String) EnumDecl

namespace Model

def empty : Model := ⟨.empty⟩

/-- The declaration of an enum type. A given name is taken as it is; else the type's name is
converted. The labels are converted in any case. -/
def declarationOf (E : EnumType) (schema name : Option String) (naming : Option Naming) :
    EnumDecl :=
  let n := Naming.orDefault naming
  ⟨schema, name.getD (n.typeName E.name), E.labels n⟩

/-- Puts a declaration under its schema and name. -/
def declare (m : Model) (d : EnumDecl) : Model := ⟨m.table.put (d.schema, d.name) d⟩

/-- Declares a database enum type for an enum. -/
def declareEnum (m : Model) (E : EnumType) (schema name : Option String)
    (naming : Option Naming) : Model :=
  m.declare (declarationOf E schema name naming)

/-- All declarations, in the order in which their names were first declared. -/
def decls (m : Model) : List EnumDecl := m.table.values

/-- The declaration of a schema and name. -/
def find? (m : Model) (schema : Option String) (name : String) : Option EnumDecl :=
  m.table.get? (schema, name)

def createStatements (m : Model) : List String := m.decls.map EnumDecl.createStatement

end Model

end EnumCatalog
