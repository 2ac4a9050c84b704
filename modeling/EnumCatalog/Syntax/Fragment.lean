import EnumCatalog.Token.Literal

/-!
# Fragments

Most of a source file is never looked into: the bodies of functions, types, patterns, values. Still
three things about such a piece of syntax matter. It has to be *valid*, since a file with an error
anywhere declares nothing. It has to *print*, since an enum is written out again with the values of
its members. And it may *mention* a crate, by a path that starts with the crate's name.

A `Fragment` is what is left of a piece of syntax when only the last two are kept; that it was valid
is known from how it came about (`Syntax/Reader`).
-/

set_option autoImplicit false

namespace EnumCatalog.Syntax

/-- A piece of syntax that is not looked into. -/
structure Fragment where
  /-- The tokens it prints as. -/
  tokens : List Token
  /-- The first names of the paths in it, as they are written, in source order. -/
  mentions : List String
  deriving Inhabited

namespace Fragment

def empty : Fragment := ⟨[], []⟩

instance : Append Fragment := ⟨fun a b => ⟨a.tokens ++ b.tokens, a.mentions ++ b.mentions⟩⟩

@[simp] theorem tokens_append (a b : Fragment) : (a ++ b).tokens = a.tokens ++ b.tokens := rfl

@[simp] theorem mentions_append (a b : Fragment) :
    (a ++ b).mentions = a.mentions ++ b.mentions := rfl

@[simp] theorem empty_append (a : Fragment) : empty ++ a = a := rfl

@[simp] theorem append_empty (a : Fragment) : a ++ empty = a := by
  cases a
  show Fragment.mk _ _ = _
  simp [empty]

theorem append_assoc (a b c : Fragment) : a ++ b ++ c = a ++ (b ++ c) := by
  show Fragment.mk _ _ = Fragment.mk _ _
  simp

def plain (tokens : List Token) : Fragment := ⟨tokens, []⟩

/-- Whether there is nothing to print. -/
def isEmpty (f : Fragment) : Bool := f.tokens.isEmpty

def concat (fs : List Fragment) : Fragment := ⟨fs.flatMap tokens, fs.flatMap mentions⟩

def within (d : Delimiter) (f : Fragment) : Fragment := ⟨[.group d f.tokens], f.mentions⟩

/-- Fragments with a comma between each two and, on demand, after the last. -/
def commaSeparated (trailing : Bool) : List Fragment → Fragment
  | [] => empty
  | [f] => if trailing then f ++ plain [.punct ',' false] else f
  | f :: rest => f ++ plain [.punct ',' false] ++ commaSeparated trailing rest

/-- The text of a fragment that is a string literal and nothing else. -/
def stringValue? (f : Fragment) : Option String :=
  match f.tokens with
  | [.literal text] => Literal.stringValue? text
  | _ => none

end Fragment

end EnumCatalog.Syntax
