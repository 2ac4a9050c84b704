import EnumCatalog.Syntax.Path

/-!
# Visibilities

Who may name an item: everyone, the module it stands in, or a module given by a path. The words
`crate`, `self` and `super` may stand alone between the parentheses; any other path needs the word
`in` before it.
-/

set_option autoImplicit false

namespace EnumCatalog.Syntax

/-- A visibility as it is written. -/
inductive Visibility where
  /-- Nothing is written. -/
  | inherited
  | everyone
  /-- Within a module; `isIn` if the word `in` is written. -/
  | within (isIn : Bool) (p : Path)
  deriving Inhabited

namespace Visibility

/-- How it prints; a restriction mentions its path. -/
def fragment : Visibility → Fragment
  | .inherited => .empty
  | .everyone => .plain [.word "pub"]
  | .within isIn p =>
    .plain [.word "pub"] ++
      (.plain (if isIn then [.word "in"] else []) ++ p.fragment : Fragment).within .paren

def isInherited : Visibility → Bool
  | .inherited => true
  | _ => false

/-- Reads a visibility. Parentheses after the word `pub` belong to it only if they hold a
restriction: in front of the type of a field they may belong to the type. -/
def read : Reader Visibility := Reader.printing fragment do
  if ← Reader.word? "pub" then
    match ← Reader.ahead with
    | .group .paren inner :: _ =>
      if atWord "in" inner then
        Reader.inGroup .paren do
          Reader.word "in"
          return .within true (← Path.readPlain)
      else if atWordIn ["crate", "self", "super"] inner && inner.tail.isEmpty then
        Reader.inGroup .paren do
          return .within false (.ofIdent (← Reader.anyIdent))
      else return .everyone
    | _ => return .everyone
  else return .inherited

end Visibility

end EnumCatalog.Syntax
