import EnumCatalog.Syntax.Grammar.Item
import EnumCatalog.Token.Lexer

/-!
# Source texts

The grammar as a whole, and the functions that read a text as one thing or another. Each of them
reads the whole text or nothing.

`Grammar.ofDepth` ties the knot. A rule that refers to itself reads at least one token between two
such references, apart from a fixed number of steps through the layers of the expression rules, so
a depth proportional to the number of tokens is never used up (`Grammar.enough`).
-/

set_option autoImplicit false

namespace EnumCatalog.Syntax

namespace Grammar

def rules (g : Grammar) : Grammar where
  type := g.anyType
  bound := g.anyBound
  pattern := g.anyPattern
  expr := g.anyExpr
  unary := g.anyUnary
  operators := g.anyOperators
  operand := g.moreRightSide
  early := g.earlyExpr
  statements := g.allStatements
  useTree := g.anyUseTree
  item := g.anyItem

/-- The grammar that admits a nesting of rules up to a depth. -/
def ofDepth (n : Nat) : Grammar := Nat.repeat rules n nothing

/-- A depth that suffices for a token stream. -/
def enough (ts : List Token) : Nat := 8 * Token.sizeAll ts + 16

/-- Reads all of a token stream by a rule. -/
def read? {α : Type} (rule : Grammar → Reader α) (ts : List Token) : Option α :=
  (rule (ofDepth (enough ts))).run? ts

end Grammar

open Reader

def Item.ofTokens? (ts : List Token) : Option Item := Grammar.read? (·.item) ts

def Item.parse? (text : String) : Option Item := do Item.ofTokens? (← Lexer.tokens? text)

/-- A text as a path. Generic arguments may follow a name directly. -/
def Path.parse? (text : String) : Option Path := do
  Grammar.read? (·.path false) (← Lexer.tokens? text)

def Ident.parse? (text : String) : Option Ident := do
  name.run? (← Lexer.tokens? text)

/-- A text as a visibility; the empty text is the one that is not written. -/
def Visibility.parse? (text : String) : Option Visibility := do
  Visibility.read.run? (← Lexer.tokens? text)

def Meta.ofTokens? (ts : List Token) : Option Meta :=
  Grammar.read? (fun g => Meta.read g.value) ts

/-- Tokens as a list of meta items with commas. -/
def Meta.listOfTokens? (ts : List Token) : Option (List Meta) :=
  Grammar.read? (fun g => Prod.fst <$> commaList (Meta.read g.value)) ts

/-- The text without a first line that names an interpreter. An attribute at the start of the file
opens with the same two characters. -/
def dropShebang (text : List Char) : List Char :=
  match text with
  | '#' :: '!' :: rest =>
    match Text.dropBlank rest with
    | '[' :: _ => text
    | _ => text.dropWhile (· != '\n')
  | _ => text

/-- A text as a source file. -/
def SourceFile.parse? (text : String) : Option SourceFile := do
  let text := dropShebang (Lexer.dropByteOrderMark text.toList)
  let rule (g : Grammar) : Reader SourceFile := do
    let attrs ← g.innerAttrs
    return ⟨attrs, ← untilEnd g.item⟩
  Grammar.read? rule (← Lexer.tokens? (String.ofList text))

end EnumCatalog.Syntax
