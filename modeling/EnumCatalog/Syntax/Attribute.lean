import EnumCatalog.Syntax.Path

/-!
# Attributes

An attribute is a path, alone or with arguments. The arguments come in two forms: tokens between
brackets, whose meaning is up to whoever knows the attribute, and a value after an equals sign.
What stands between the brackets of an attribute is a `Meta`, and so are the arguments of those
attributes that use the same form again: `Meta.list?` reads a list of them.
-/

set_option autoImplicit false

namespace EnumCatalog.Syntax

inductive Meta where
  /-- A path alone. -/
  | path (p : Path)
  /-- A path and tokens between brackets. -/
  | list (p : Path) (d : Delimiter) (arguments : List Token)
  /-- A path, an equals sign and a value. -/
  | value (p : Path) (v : Fragment)
  deriving Inhabited

namespace Meta

/-- The path of what is said. -/
def name : Meta → Path
  | .path p => p
  | .list p _ _ => p
  | .value p _ => p

/-- How it prints and what it mentions. The tokens of a list mention nothing. -/
def fragment : Meta → Fragment
  | .path p => p.fragment
  | .list p d arguments => p.fragment ++ .plain [.group d arguments]
  | .value p v => p.fragment ++ .plain [.punct '=' false] ++ v

/-- Reads what follows the path. A literal in last place is a value of its own; any other value is
an expression, which here may not open with an attribute. -/
def readAfter (expr : Reader Unit) (p : Path) : Reader Meta := do
  let ts ← Reader.ahead
  if atAnyGroup ts then
    let (d, arguments) ← Reader.silent Reader.anyGroup
    return .list p d arguments
  else if atOp "=" ts && !atOp "==" ts && !atOp "=>" ts then
    Reader.silent (Reader.op "=")
    let ts ← Reader.ahead
    if (Reader.literal.run? ts).isSome then
      let (_, v) ← Reader.captured Reader.literal
      return .value p v
    else
      Reader.require !(atOp "#" ts && atGroup .bracket ts.tail)
      let (_, v) ← Reader.captured expr
      return .value p v
  else return .path p

/-- Reads what an attribute says. Of the reserved words only `unsafe` can be its path. -/
def read (expr : Reader Unit) : Reader Meta := Reader.printing fragment do
  if ← Reader.sees (atWord "unsafe") then readAfter expr (.ofIdent (← Reader.anyIdent))
  else readAfter expr (← Path.readPlain)

/-- Reads tokens as a list with commas. -/
def list? (expr : Reader Unit) (ts : List Token) : Option (List Meta) :=
  (Reader.commaList (read expr)).run? ts |>.map Prod.fst

end Meta

structure Attribute where
  /-- It belongs to what encloses it. -/
  inner : Bool
  content : Meta
  deriving Inhabited

namespace Attribute

def name (a : Attribute) : Path := a.content.name

/-- The attribute with its number sign and brackets. -/
def fragment (a : Attribute) : Fragment :=
  .plain (.punct '#' false :: if a.inner then [.punct '!' false] else []) ++
    a.content.fragment.within .bracket

/-- The tokens between the brackets of the attribute's arguments. -/
def arguments? (a : Attribute) : Option (List Token) :=
  match a.content with
  | .list _ _ arguments => some arguments
  | _ => none

/-- Reads an attribute whose number sign and mark have been read. -/
def readBracket (expr : Reader Unit) (inner : Bool) : Reader Attribute := do
  return ⟨inner, ← Reader.inGroup .bracket (Meta.read expr)⟩

/-- Reads the attributes in front of something. -/
def readOuter (expr : Reader Unit) : Reader (List Attribute) :=
  Reader.collect do
    if ← Reader.sees (atOp "#") then
      some <$> Reader.printing fragment do
        Reader.op "#"
        readBracket expr false
    else return none

/-- Reads the attributes at the start of what they belong to. -/
def readInner (expr : Reader Unit) : Reader (List Attribute) :=
  Reader.collect do
    let ts ← Reader.ahead
    if atOp "#" ts && atOp "!" ts.tail then
      some <$> Reader.printing fragment do
        Reader.op "#"
        Reader.op "!"
        readBracket expr true
    else return none

end Attribute

end EnumCatalog.Syntax
