/-!
# Values of a TOML document

Numbers and dates are checked for their form and then forgotten, because no setting has them as its
value.
-/

set_option autoImplicit false

namespace EnumCatalog.Toml

/-- A value. The keys of a table are distinct. -/
inductive Value where
  | string (s : String)
  | boolean (b : Bool)
  | number
  | dateTime
  | array (vs : List Value)
  | table (entries : List (String × Value))
  deriving Repr, Inhabited

namespace Value

def string? : Value → Option String
  | .string s => some s
  | _ => none

/-- The truth value of a boolean. -/
def boolean? : Value → Option Bool
  | .boolean b => some b
  | _ => none

/-- The texts of an array of strings. -/
def strings? : Value → Option (List String)
  | .array vs => vs.mapM string?
  | _ => none

end Value

end EnumCatalog.Toml
