/-!
# Database enum types and their statement

The text of `CREATE TYPE`. Names stand in double quotes and labels in single quotes; inside either,
the quote itself is written twice, and nothing else is escaped. Since a name or a label may be any
text, this doubling is all that keeps one from ending early.
-/

set_option autoImplicit false

namespace EnumCatalog.Sql

/-- Writes every occurrence of the quote twice. -/
def doubled (quote : Char) : List Char → List Char
  | [] => []
  | c :: rest => if c = quote then c :: c :: doubled quote rest else c :: doubled quote rest

def enclosed (quote : Char) (s : String) : String :=
  String.ofList (quote :: doubled quote s.toList ++ [quote])

/-- A name as SQL writes it. -/
def identifier (s : String) : String := enclosed '"' s

/-- A text value as SQL writes it. -/
def literal (s : String) : String := enclosed '\'' s

/-- An enum type of the database. -/
structure EnumDecl where
  schema : Option String
  name : String
  labels : List String
  deriving DecidableEq, Repr

namespace EnumDecl

/-- The quoted name, after its schema if it has one. -/
def qualifiedName (d : EnumDecl) : String :=
  match d.schema with
  | some s => identifier s ++ "." ++ identifier d.name
  | none => identifier d.name

/-- The statement that creates the type. -/
def createStatement (d : EnumDecl) : String :=
  "CREATE TYPE " ++ d.qualifiedName ++ " AS ENUM (" ++
    String.intercalate ", " (d.labels.map literal) ++ ");"

end EnumDecl

end EnumCatalog.Sql
