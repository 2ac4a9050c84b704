import EnumCatalog.Text.IdentChar

/-!
# Tokens

The smallest units of a source text, and the text they print as. A token stream is a list of
tokens in which a pair of brackets with everything between them is *one* token, so a stream is
balanced by construction and a reader never has to look for a closing bracket.

Two things are kept although no grammar asks for them, because printing does: whether an identifier
was written raw (`r#type`), and whether a punctuation character touches the next one (`joint`),
which is what tells `::` from `: :`. Literals are kept as they were written; `Token/Literal` reads
them.
-/

set_option autoImplicit false

namespace EnumCatalog

/-- The names that cannot be raw. -/
def neverRaw : List String := ["_", "super", "self", "Self", "crate"]

/-- An identifier or keyword. `r#type` has the name `type` and is raw. -/
structure Ident where
  raw : Bool
  name : String
  isText : Text.isIdentText name.toList = true
  canBeRaw : (raw && neverRaw.contains name) = false
  deriving DecidableEq, Repr

namespace Ident

/-- A text that is an identifier by computation. A proof by this name stays where it is written;
one by `decide` becomes a lemma that all definitions with the same word share. -/
theorem isText_of_eval (name : String) (h : Text.isIdentText name.toList = true) :
    Text.isIdentText name.toList = true := h

/-- An identifier without the raw mark. -/
def plain (name : String) (isText : Text.isIdentText name.toList = true := by
    exact EnumCatalog.Ident.isText_of_eval _ Bool.not_false) : Ident :=
  ⟨false, name, isText, rfl⟩

instance : Inhabited Ident := ⟨.plain "_"⟩

/-- The identifier as it is written. -/
def text (i : Ident) : String := if i.raw then "r#" ++ i.name else i.name

/-- Whether the identifier is this plain word. A raw identifier is no keyword and no plain word. -/
def isWord (i : Ident) (w : String) : Bool := !i.raw && i.name == w

/-- The words that cannot be names: those the language uses, those it reserves, and the underscore.
-/
def reservedWords : List String := [
  "_", "abstract", "as", "async", "await", "become", "box", "break", "const", "continue", "crate",
  "do", "dyn", "else", "enum", "extern", "false", "final", "fn", "for", "if", "impl", "in", "let",
  "loop", "macro", "match", "mod", "move", "mut", "override", "priv", "pub", "ref", "return",
  "Self", "self", "static", "struct", "super", "trait", "true", "try", "type", "typeof", "unsafe",
  "unsized", "use", "virtual", "where", "while", "yield"]

/-- Whether the identifier can name something. -/
def isName (i : Ident) : Bool := i.raw || !reservedWords.contains i.name

end Ident

inductive Delimiter where
  | paren
  | bracket
  | brace
  deriving DecidableEq, Repr

inductive Token where
  | ident (i : Ident)
  /-- A lifetime or loop label, without its quote. -/
  | lifetime (i : Ident)
  /-- A punctuation character; `joint` if the next character is punctuation too. -/
  | punct (c : Char) (joint : Bool)
  /-- A literal as it was written. -/
  | literal (text : String)
  | group (d : Delimiter) (inner : List Token)
  deriving Repr, Inhabited

namespace Token

def word (w : String) (isText : Text.isIdentText w.toList = true := by
    exact EnumCatalog.Ident.isText_of_eval _ Bool.not_false) : Token :=
  .ident (.plain w isText)

def underscore : Token := word "_"

/-- The characters of an operator, each touching the next. -/
def operator : List Char → List Token
  | [] => []
  | [c] => [.punct c false]
  | c :: rest => .punct c true :: operator rest

/-- A bracketed group. -/
def paren (inner : List Token) : Token := .group .paren inner
@[inherit_doc paren] def bracket (inner : List Token) : Token := .group .bracket inner
@[inherit_doc paren] def brace (inner : List Token) : Token := .group .brace inner

mutual

/-- The number of tokens, brackets and their contents included. -/
def size : Token → Nat
  | .group _ inner => sizeAll inner + 1
  | _ => 1

/-- The number of tokens of a stream, brackets and their contents included. -/
def sizeAll : List Token → Nat
  | [] => 0
  | t :: rest => t.size + sizeAll rest

end

/-! ## Printing

Tokens are separated by one space, unless the first is punctuation that touches the next. Braces
have a space inside on either side; the other brackets have none. -/

mutual

def text : Token → String
  | .ident i => i.text
  | .lifetime i => "'" ++ i.text
  | .punct c _ => c.toString
  | .literal s => s
  | .group .paren inner => "(" ++ textAll inner ++ ")"
  | .group .bracket inner => "[" ++ textAll inner ++ "]"
  | .group .brace [] => "\x7b \x7d"
  | .group .brace (t :: rest) => "\x7b " ++ textAll (t :: rest) ++ " \x7d"

/-- The text of a token stream. -/
def textAll : List Token → String
  | [] => ""
  | [t] => t.text
  | t :: rest =>
    match t with
    | .punct _ true => t.text ++ textAll rest
    | _ => t.text ++ " " ++ textAll rest

end

end Token

end EnumCatalog
