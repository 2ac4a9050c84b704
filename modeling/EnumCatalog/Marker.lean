import EnumCatalog.Syntax.Source

/-!
# Markers

The path of the attribute by which enums are recognised. It starts with the name of a crate, so that
an attribute of the same name from elsewhere is not taken for it.
-/

set_option autoImplicit false

namespace EnumCatalog

/-- The path of an attribute. The names are as they are written, with raw marks. -/
structure Marker where
  segments : List String
  deriving DecidableEq, Repr

namespace Marker

/-- The marker that is used unless another is asked for. -/
def standard : Marker := ⟨["pgenum", "pg_enum"]⟩

/-- The name of the argument by which an attribute gives a database name. -/
def aliasArgument : String := "alias"

def text (m : Marker) : String := String.intercalate "::" m.segments

/-- The crate that the attribute comes from. -/
def crateName (m : Marker) : String := m.segments.headD ""

/-- Whether an absolute path is that of the marker. -/
def matchesPath (m : Marker) (path : List String) : Bool := m.segments == path

/-- Why a text is no marker. -/
inductive Error where
  | notPath (text : String)
  /-- Nothing says which crate it comes from. -/
  | unqualified (text : String)
  | genericArguments (text : String)
  deriving DecidableEq, Repr

def Error.message : Error → String
  | .notPath t => "Invalid marker path `" ++ t ++ "`"
  | .unqualified t =>
    "Marker path `" ++ t ++ "` must be crate-qualified, e.g. `" ++ standard.text ++ "`"
  | .genericArguments t => "Marker path `" ++ t ++ "` must not carry generic arguments"

/-- Reads a marker. A leading double colon makes no difference. -/
def parse (text : String) : Except Error Marker :=
  match Syntax.Path.parse? text with
  | none => .error (.notPath text)
  | some p =>
    if p.segments.length < 2 then .error (.unqualified text)
    else if !p.isPlain then .error (.genericArguments text)
    else .ok ⟨p.segments.map (·.ident.text)⟩

end Marker

end EnumCatalog
