import EnumCatalog.Syntax.Item

/-!
# The shape of the grammar

The rules of the language refer to each other in every direction: a type may hold an expression (the
length of an array), an expression a block, a block items, and an item types. Instead of one mutual
definition, each family of rules is written over a `Grammar`, a record of readers for the rules that
other families (and the family itself) refer to. Tying the knot is then one line
(`Syntax/Source`): a grammar of depth `n + 1` is the rules over the grammar of depth `n`.

A reader answers no tree, since nothing looks into one, but a *shape*: the little that a rule has to
know about a piece it contains to tell what may follow. The shapes are the inductive types below.
-/

set_option autoImplicit false

namespace EnumCatalog.Syntax

/-- What is known of a type. -/
inductive TypeShape where
  /-- A path. It is `simple` if it is one segment without parentheses and without anything in front
  of it. -/
  | path (qualified simple : Bool)
  /-- Bounds without a word in front; `single` if there is one and no plus sign after it. -/
  | bounds (single : Bool)
  /-- A type in parentheses. -/
  | paren
  | other
  deriving DecidableEq, Repr

/-- What is known of a bound. -/
inductive BoundShape where
  | trait
  /-- A trait with the word `const`; it is printed as it stands. -/
  | constTrait
  | lifetime
  /-- The parameters that a hidden type captures. -/
  | capture
  deriving DecidableEq, Repr

/-- What is known of a pattern. -/
inductive PatternShape where
  /-- Two dots alone. -/
  | rest
  /-- A range that lacks one of its ends. -/
  | openRange
  | other
  deriving DecidableEq, Repr

/-- What is known of an expression. -/
inductive ExprShape where
  /-- It ends with a block, so it is a statement without a semicolon. -/
  | block
  /-- A macro call; `braced` if its arguments stand in braces. -/
  | call (braced : Bool)
  | range
  /-- A comparison, which cannot be compared again. -/
  | comparison
  /-- It is printed as it stands. -/
  | asWritten
  | other
  deriving DecidableEq, Repr

/-- How tightly operators bind, from the loosest to the tightest. -/
inductive Precedence where
  | any
  | assign
  | range
  | or
  | and
  | compare
  | bitOr
  | bitXor
  | bitAnd
  | shift
  | sum
  | product
  | cast
  deriving DecidableEq, Repr

/-- The place of a precedence in the order. -/
def Precedence.rank (p : Precedence) : Nat := p.ctorIdx

/-- Readers for the rules that are referred to from everywhere. -/
structure Grammar where
  /-- A type. The flag admits a list of bounds with plus signs. -/
  type : Bool → Reader TypeShape
  /-- A bound. The flags admit captured parameters and the word `const`. -/
  bound : Bool → Bool → Reader BoundShape
  /-- A pattern without alternatives. -/
  pattern : Reader PatternShape
  /-- An expression. The flag admits a struct literal where one would open with a brace. -/
  expr : Bool → Reader ExprShape
  /-- An operand with its prefix operators. -/
  unary : Bool → Reader ExprShape
  /-- What may follow an operand: operators at least as tight as a precedence. -/
  operators : Bool → Precedence → ExprShape → Reader ExprShape
  /-- More operators on the right of an operator. -/
  operand : Bool → Precedence → ExprShape → Reader ExprShape
  /-- An expression at the start of a statement or of the body of a match arm. -/
  early : Reader ExprShape
  /-- The statements of a block up to its end. -/
  statements : Reader Unit
  /-- The tree of an import. The flag admits double colons in front of the trees of a group; a tree
  that has some is valid but is no tree. -/
  useTree : Bool → Reader (Option UseTree)
  item : Reader Item

namespace Grammar

open Reader

/-- The grammar in which nothing is valid. -/
def nothing : Grammar where
  type _ := failure
  bound _ _ := failure
  pattern := failure
  expr _ := failure
  unary _ := failure
  operators _ _ _ := failure
  operand _ _ _ := failure
  early := failure
  statements := failure
  useTree _ := failure
  item := failure

variable (g : Grammar)

/-- An expression of which nothing needs to be known. -/
def value : Reader Unit := discard (g.expr true)

/-- The attributes in front of something. -/
def outerAttrs : Reader (List Attribute) := Attribute.readOuter g.value

/-- The attributes at the start of a body. -/
def innerAttrs : Reader (List Attribute) := Attribute.readInner g.value

/-- A pattern, or several with bars between them. -/
def patterns : Reader PatternShape := do
  let leading ← op? "|"
  let first ← g.pattern
  let others ← collect do
    let ts ← ahead
    if atOp "|" ts && !atOp "||" ts && !atOp "|=" ts then
      op "|"
      return some (← g.pattern)
    else return none
  return if leading || !others.isEmpty then .other else first

def block : Reader Unit := inGroup .brace g.statements

/-- A block that may open with attributes; answers them. -/
def body : Reader (List Attribute) := inGroup .brace do
  let attrs ← g.innerAttrs
  g.statements
  return attrs

end Grammar

end EnumCatalog.Syntax
