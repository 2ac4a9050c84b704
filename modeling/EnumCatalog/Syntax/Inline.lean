import EnumCatalog.Syntax.Reader

/-!
# Types on one line

How a type is written out, as opposed to how its tokens print: `&'static [u8; 2]` and not
`& 'static [u8 ; 2]`. Whether a space stands between two tokens is decided from the two alone
(`isSpaced`), after a few that belong together have been joined (`lexemes`). In a type the double
colon in front of generic arguments says nothing, so it is left out.
-/

set_option autoImplicit false

namespace EnumCatalog.Syntax

/-- A unit of a type that is written out. -/
inductive Lexeme where
  /-- A word that another may follow: `dyn`, `mut` and the like. -/
  | keyword (s : String)
  | word (s : String)
  | lifetime (s : String)
  /-- Punctuation that is written without spaces. -/
  | tight (s : String)
  /-- The angle bracket that closes. -/
  | angle
  /-- Punctuation with a space on either side. -/
  | wide (s : String)
  /-- Punctuation with a space after it. -/
  | trailing (s : String)
  /-- Brackets with what is in them, as they are written out. -/
  | closed (d : Delimiter) (s : String)
  deriving Repr

namespace Lexeme

def text : Lexeme → String
  | .keyword s => s
  | .word s => s
  | .lifetime s => s
  | .tight s => s
  | .angle => ">"
  | .wide s => s
  | .trailing s => s
  | .closed _ s => s

/-- Words that stand in front of what they apply to. -/
def leadingWords : List String :=
  ["as", "const", "dyn", "extern", "impl", "mut", "unsafe", "where"]

/-- Whether a unit is a word or opens one. -/
def opensWord : Lexeme → Bool
  | .keyword _ => true
  | .word _ => true
  | .lifetime _ => true
  | _ => false

/-- Whether a space stands between two units. -/
def isSpaced : Lexeme → Lexeme → Bool
  | _, .wide _ => true
  | .wide _, _ => true
  | _, .trailing _ => false
  | .trailing _, _ => true
  | _, .angle => false
  | .keyword _, _ => true
  | .word _, .closed .brace _ => true
  | .word _, b => b.opensWord
  | .lifetime _, .closed _ _ => true
  | .lifetime _, .tight s => s == "&" || s == "*"
  | .lifetime _, b => b.opensWord
  | .angle, b => b.opensWord
  | .closed _ _, b => b.opensWord
  | .tight _, _ => false

/-- The units written out one after the other. -/
def joined : List Lexeme → String
  | [] => ""
  | [a] => a.text
  | a :: b :: rest => a.text ++ (if isSpaced a b then " " else "") ++ joined (b :: rest)

/-- Whether a unit is a comma. -/
def isComma : Lexeme → Bool
  | .trailing s => s == ","
  | _ => false

/-- A list without the comma after its last item. That of a single item is kept on demand. -/
def dropLastComma (keepSingle : Bool) (ls : List Lexeme) : List Lexeme :=
  match ls.reverse with
  | l :: before =>
    if l.isComma && !(keepSingle && !before.any isComma) then before.reverse else ls
  | [] => ls

end Lexeme

open Lexeme

mutual

def lexeme (afterWord : Bool) : Token → Lexeme
  | .ident i => if leadingWords.any i.isWord then .keyword i.text else .word i.text
  | .lifetime i => .lifetime ("'" ++ i.text)
  | .literal s => .word s
  | .punct c _ =>
    if c == ',' || c == ';' || c == ':' then .trailing c.toString
    else if c == '=' || c == '+' then .wide c.toString
    else if c == '>' then .angle
    else .tight c.toString
  | .group .paren inner =>
    .closed .paren ("(" ++ joined (dropLastComma (!afterWord) (lexemes false inner)) ++ ")")
  | .group .bracket inner => .closed .bracket ("[" ++ joined (lexemes false inner) ++ "]")
  | .group .brace inner => .closed .brace ("\x7b " ++ joined (lexemes false inner) ++ " \x7d")

def lexemes (afterWord : Bool) : List Token → List Lexeme
  | .punct ':' true :: .punct ':' _ :: .punct '<' _ :: rest =>
    .tight "<" :: lexemes false rest
  | .punct ':' true :: .punct ':' _ :: rest => .tight "::" :: lexemes false rest
  | .punct '-' true :: .punct '>' _ :: rest => .wide "->" :: lexemes false rest
  | t :: rest => lexeme afterWord t :: lexemes (atIdent [t]) rest
  | [] => []

end

end EnumCatalog.Syntax
