import EnumCatalog.Naming

/-!
# Registered enum types

What the registries know of an enum: its name, the names of its members in the order of their
declaration, the database name it asks for, and how a value and the name of its member correspond.

An `EnumType` is found again by its `identity` and not by its name, since two modules may each
declare an enum of one name. `ofVariants` is the type that a plain declaration makes: its values
*are* the names of its members.
-/

set_option autoImplicit false

namespace EnumCatalog

/-- An enum that can be stored as a database enum. -/
structure EnumType where
  /-- Tells this type from every other. -/
  identity : String
  name : String
  /-- Member names in the order of their declaration. -/
  variants : List String
  /-- The database name that the declaration asks for. -/
  aliasName : Option String
  Value : Type
  /-- The name of a value's member. -/
  variantName : Value → String
  /-- The value of a member, looked up by name. -/
  ofVariant? : String → Option Value

namespace EnumType

/-- The type of a declaration with these members: a value is one of the names. -/
def ofVariants (identity name : String) (variants : List String) (aliasName : Option String) :
    EnumType where
  identity := identity
  name := name
  variants := variants
  aliasName := aliasName
  Value := { v : String // v ∈ variants }
  variantName := Subtype.val
  ofVariant? s := if h : s ∈ variants then some ⟨s, h⟩ else none

/-- The labels of the members under a convention, in the order of the members. -/
def labels (E : EnumType) (n : Naming) : List String := E.variants.map n.memberName

/-- The database name under a convention: the one asked for, else the type's name, converted. -/
def databaseName (E : EnumType) (n : Naming) : String := E.aliasName.getD (n.typeName E.name)

theorem length_labels (E : EnumType) (n : Naming) : (E.labels n).length = E.variants.length := by
  simp [labels]

end EnumType

end EnumCatalog
