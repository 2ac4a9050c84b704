import EnumCatalog.Extraction
import EnumCatalog.Layout
import EnumCatalog.Syntax.Inline
import EnumCatalog.Text.Escape

/-!
# The generated code

The artifact of a generation: two functions that go through all tagged enums, one with a type mapper
and one with a model builder, and on demand the log of the pass as a comment. An `Artifact` holds
what varies, that is the paths and database names in order and the path of the runtime crate. It is
made from descriptors, whose names have to be paths for that (`Artifact.ofDescriptors`).

The log can quote anything: file names, database names. Each of its lines is a comment of its own,
with control characters escaped, so it cannot end the comment (`diagnosticsText`).
-/

set_option autoImplicit false

namespace EnumCatalog

open Layout (Doc)
open Syntax (Path Segment GenericArgs)

/-! ## 1. Pieces of code -/

/-- Generic arguments in a type; empty brackets are left out. -/
def Syntax.GenericArgs.doc (a : GenericArgs) : List Doc :=
  if a.args.isEmpty then []
  else Doc.list "<" ">" true
    (a.args.map fun f => [.text (Syntax.Lexeme.joined (Syntax.lexemes false f.tokens))])

/-- A segment of a path in a type. -/
def Syntax.Segment.doc (s : Segment) : List Doc :=
  .text s.ident.text :: (s.args.map GenericArgs.doc).getD []

def Syntax.Path.doc (p : Path) : List Doc :=
  (if p.leading then [.text "::"] else []) ++
    List.intercalate [.text "::"] (p.segments.map Segment.doc)

/-- A statement that calls a method with one generic argument on a variable. -/
def callDoc (receiver method : String) (path : Path) (arguments : List (List Doc)) : List Doc :=
  [.group true (
      [.text receiver, .maybe .opening, .text ("." ++ method ++ "::")] ++
        Doc.list "<" ">" true [path.doc] ++ Doc.list "(" ")" true arguments),
    .text ";"]

/-- The head of a function, from its name to the brace that opens its body. -/
def headDoc (name : String) (generics parameters : List (List Doc)) (result : String) : List Doc :=
  .text ("pub fn " ++ name) :: Doc.list "<" ">" false generics ++ [.text "(", .seam] ++
    Doc.list "" ")" false parameters ++ [.text (result ++ " \x7b")]

/-! ## 2. The artifact -/

structure Entry where
  path : Path
  aliasName : Option String
  deriving Inhabited

structure Artifact where
  runtime : Path
  entries : List Entry
  deriving Inhabited

/-- The path of something in the runtime crate. -/
def runtimeDoc (runtime : Path) (item : String) : List Doc := runtime.doc ++ [.text ("::" ++ item)]

def namingDoc (runtime : Path) : List Doc :=
  .text "translator: Option" ::
    Doc.list "<" ">" true [.text "&dyn " :: runtimeDoc runtime "NameTranslator"]

namespace Entry

/-- The statement that maps the enum. -/
def mapDoc (e : Entry) : List Doc := callDoc "mapper" "map_enum" e.path [[.text "translator"]]

/-- The argument for the database name. -/
def aliasDoc (e : Entry) : List Doc :=
  match e.aliasName with
  | some aliasName => .text "Some" :: Doc.list "(" ")" true [[.text (Text.quoted aliasName)]]
  | none => [.text "None"]

/-- The statement that declares the enum. -/
def declareDoc (e : Entry) : List Doc :=
  callDoc "builder" "has_postgres_enum" e.path
    [[.text "schema"], e.aliasDoc, [.text "translator"]]

end Entry

namespace Artifact

/-- Lines with the line feed that ends each. -/
def linesText (lines : List String) : String := String.join (lines.map (· ++ "\n"))

/-- The lines in front of everything. -/
def header : List String := [
  "// Auto-generated by pgenum-build. Do not edit manually.",
  "//",
  "// Regenerated on every build from the #[pg_enum] declarations of this crate.",
  ""]

/-- The lines in front of the function that maps. -/
def mapComment : List String := [
  "/// Map every `#[pg_enum]` type of this crate with `mapper`.",
  "///",
  "/// Types and labels are named with `translator` (snake_case when `None`).",
  "/// Returns `mapper` for chaining.",
  "#[allow(unused_variables)]"]

/-- The lines in front of the function that declares. -/
def declareComment : List String := [
  "/// Declare every `#[pg_enum]` type of this crate as a PostgreSQL enum on `builder`.",
  "///",
  "/// Enums with an alias are declared under it; the rest are named with `translator`.",
  "#[allow(unused_variables)]"]

/-- The head of the function that maps. -/
def mapHead (a : Artifact) : List Doc :=
  headDoc "map_postgres_enums"
    [[.text "'a"], .text "M: " :: runtimeDoc a.runtime "TypeMapper"]
    [[.text "mapper: &'a mut M"], namingDoc a.runtime] " -> &'a mut M"

/-- The head of the function that declares. -/
def declareHead (a : Artifact) : List Doc :=
  headDoc "register_postgres_enums"
    [.text "B: " :: runtimeDoc a.runtime "ModelBuilder"]
    [[.text "builder: &mut B"], [.text "schema: Option<&str>"], namingDoc a.runtime] ""

/-- A function with its statements, each on lines of its own. -/
def functionText (head : List Doc) (statements : List (List Doc)) : String :=
  if statements.isEmpty then Doc.render 0 4 (head ++ [.text "\x7d"])
  else Doc.render 0 4 head ++ String.join (statements.map (Doc.render 4 4)) ++ "\x7d\n"

/-- The artifact without comments on the pass. -/
def text (a : Artifact) : String :=
  linesText header ++ linesText mapComment ++
    functionText a.mapHead (a.entries.map Entry.mapDoc ++ [[.text "mapper"]]) ++
    linesText declareComment ++ functionText a.declareHead (a.entries.map Entry.declareDoc)

def diagnosticsText (lines : List String) : String :=
  linesText (["", "// pgenum-build diagnostics:"] ++
    lines.map fun line => "//   " ++ Text.commented line)

/-- Why no artifact can be made. -/
inductive Error where
  /-- The name of an enum is no path. -/
  | notPath (name : String)
  deriving DecidableEq, Repr

def Error.message : Error → String
  | .notPath name => "Invalid enum path `" ++ name ++ "`"

def entryOf (d : Descriptor) : Except Error Entry :=
  match Path.parse? d.qualifiedName with
  | some p => .ok ⟨p, d.aliasName⟩
  | none => .error (.notPath d.qualifiedName)

/-- The artifact for descriptors. The first name that is no path is the error. -/
def ofDescriptors (runtime : Path) (ds : List Descriptor) : Except Error Artifact := do
  return ⟨runtime, ← ds.mapM entryOf⟩

/-- The text of the artifact for descriptors, with the log of the pass if there is one to show. -/
def render (ds : List Descriptor) (runtime : Path) (log : Option (List String)) :
    Except Error String := do
  let a ← ofDescriptors runtime ds
  return a.text ++ (log.map diagnosticsText).getD ""

end Artifact

end EnumCatalog
