import EnumCatalog.Text.SnakeCase

/-!
# Naming conventions

How the identifiers of an enum become names in the database. A convention answers for the type and
for its members separately, because a database may keep the two apart; everything that registers an
enum takes a convention as a parameter and never spells a name itself.
-/

set_option autoImplicit false

namespace EnumCatalog

/-- A way to name types and members. -/
structure Naming where
  /-- The database name of a type. -/
  typeName : String → String
  /-- The label of a member. -/
  memberName : String → String

namespace Naming

/-- `OrderStatus` becomes `order_status`, and `InTransit` becomes `in_transit`. -/
def snakeCase : Naming := ⟨Text.snakeCase, Text.snakeCase⟩

/-- Every identifier stays as it is. -/
def verbatim : Naming := ⟨id, id⟩

/-- The convention in force when none is chosen is snake case. -/
def orDefault (n : Option Naming) : Naming := n.getD snakeCase

end Naming

end EnumCatalog
