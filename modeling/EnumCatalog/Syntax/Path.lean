import EnumCatalog.Syntax.Reader

/-!
# Paths

A path is a list of segments between double colons. A segment may carry generic arguments; the
arguments themselves are fragments, and reading them needs the grammar of types, so only the plain
paths of attributes and visibilities are read here (`readPlain`).

What a path *mentions* is its first name: it is there that the name of a crate can stand.
-/

set_option autoImplicit false

namespace EnumCatalog.Syntax

structure GenericArgs where
  /-- Written after a double colon. -/
  turbofish : Bool
  /-- The arguments in the order in which they print, lifetimes first. -/
  args : List Fragment
  /-- A comma follows the last argument. -/
  trailing : Bool
  deriving Inhabited

namespace GenericArgs

def fragment (a : GenericArgs) : Fragment :=
  .plain ((if a.turbofish then Token.operator [':', ':'] else []) ++ [.punct '<' false]) ++
    .commaSeparated a.trailing a.args ++ .plain [.punct '>' false]

end GenericArgs

structure Segment where
  ident : Ident
  args : Option GenericArgs
  deriving Inhabited

/-- A segment with its generic arguments. -/
def Segment.fragment (s : Segment) : Fragment :=
  .plain [.ident s.ident] ++ (s.args.map GenericArgs.fragment).getD .empty

/-- A path. Every path that is read has a segment. -/
structure Path where
  /-- A double colon stands in front. -/
  leading : Bool
  segments : List Segment
  deriving Inhabited

namespace Path

/-- The path of a single identifier. -/
def ofIdent (i : Ident) : Path := ⟨false, [⟨i, none⟩]⟩

/-- The only segment of a path that is one identifier and nothing else. -/
def ident? (p : Path) : Option Ident :=
  match p.leading, p.segments with
  | false, [⟨i, none⟩] => some i
  | _, _ => none

/-- Whether the path is this plain word and nothing else. -/
def isWord (p : Path) (w : String) : Bool := p.ident?.any (·.isWord w)

/-- Whether no segment has generic arguments. -/
def isPlain (p : Path) : Bool := p.segments.all (·.args.isNone)

/-- The segments' names without their raw marks. -/
def names (p : Path) : List String := p.segments.map (·.ident.name)

/-- The first name as it is written. -/
def head? (p : Path) : Option String := p.segments.head?.map (·.ident.text)

/-- Segments with double colons between them. -/
def joined : List Segment → Fragment
  | [] => .empty
  | [s] => s.fragment
  | s :: rest => s.fragment ++ .plain (Token.operator [':', ':']) ++ joined rest

/-- The path as a fragment, which mentions the path's first name and whatever its arguments do. -/
def fragment (p : Path) : Fragment :=
  ⟨[], p.head?.toList⟩ ++ .plain (if p.leading then Token.operator [':', ':'] else []) ++
    joined p.segments

/-- Reads a segment without generic arguments. -/
def readIdent : Reader Ident := do
  Reader.require (atPathWord (← Reader.ahead))
  Reader.anyIdent

/-- Reads a path without generic arguments, as attributes and visibilities have it. -/
def readPlain : Reader Path := Reader.printing fragment do
  let leading ← Reader.op? "::"
  let first ← readIdent
  let others ← Reader.collect do
    if ← Reader.op? "::" then return some (← readIdent) else return none
  return ⟨leading, (first :: others).map (⟨·, none⟩)⟩

end Path

end EnumCatalog.Syntax
