import EnumCatalog.EnumType
import EnumCatalog.Ordered

/-!
# The type mapper

Values of registered enums travel to the database as labels and come back as values. The mapper
holds one `Mapping` per enum type, by the identity of the type, and converts by position: the label
of a member stands where the member stands in the declaration.

Two members may get the same label under some conventions. Decoding then finds the first of them;
nothing here forbids it, because the mapper cannot know which labels the database has.
-/

set_option autoImplicit false

namespace EnumCatalog

/-- What the mapper holds of one enum type. -/
structure Mapping where
  /-- The name of the enum type. -/
  name : String
  databaseName : String
  /-- One label per member, in the order of the members. -/
  labels : List String
  deriving DecidableEq, Repr

/-- Why a value or a label could not be converted. -/
inductive MappingError where
  /-- The enum type was never mapped. -/
  | unmapped (typeName : String)
  /-- The label, or the member of the value, is not one of the mapped type. -/
  | unknownLabel (typeName label : String)
  deriving DecidableEq, Repr

def MappingError.message : MappingError → String
  | .unmapped t => "enum type `" ++ t ++ "` has not been mapped"
  | .unknownLabel t l => "`" ++ l ++ "` is not a label of enum type `" ++ t ++ "`"

/-- The enum types mapped so far, in the order in which each was first mapped. -/
structure Mapper where
  table : Ordered String Mapping

namespace Mapper

def empty : Mapper := ⟨.empty⟩

/-- The mapping that an enum type gets under a convention. -/
def mappingOf (E : EnumType) (naming : Option Naming) : Mapping :=
  let n := Naming.orDefault naming
  ⟨E.name, E.databaseName n, E.labels n⟩

/-- Maps an enum type, in place of an earlier mapping of the same type. -/
def mapEnum (m : Mapper) (E : EnumType) (naming : Option Naming) : Mapper :=
  ⟨m.table.put E.identity (mappingOf E naming)⟩

/-- All mappings, in the order in which their types were first mapped. -/
def mappings (m : Mapper) : List Mapping := m.table.values

/-- The mapping of an enum type. -/
def get? (m : Mapper) (E : EnumType) : Option Mapping := m.table.get? E.identity

/-- Whether the enum type has been mapped. -/
def isMapped (m : Mapper) (E : EnumType) : Bool := (m.get? E).isSome

/-- The database name that an enum type is mapped to. -/
def databaseName? (m : Mapper) (E : EnumType) : Option String := (m.get? E).map (·.databaseName)

def encode (m : Mapper) (E : EnumType) (v : E.Value) : Except MappingError String :=
  match m.get? E with
  | none => .error (.unmapped E.name)
  | some mapping =>
    let variant := E.variantName v
    match (E.variants.idxOf? variant).bind (mapping.labels[·]?) with
    | some label => .ok label
    | none => .error (.unknownLabel E.name variant)

def decode (m : Mapper) (E : EnumType) (label : String) : Except MappingError E.Value :=
  match m.get? E with
  | none => .error (.unmapped E.name)
  | some mapping =>
    match (mapping.labels.idxOf? label).bind (E.variants[·]?) |>.bind E.ofVariant? with
    | some v => .ok v
    | none => .error (.unknownLabel E.name label)

end Mapper

end EnumCatalog
