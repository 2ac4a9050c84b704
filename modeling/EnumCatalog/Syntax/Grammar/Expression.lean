import EnumCatalog.Syntax.Grammar.Pattern

/-!
# Expressions

Expressions are read in three layers: atoms, which are complete by themselves; operands, which are
atoms with prefix operators in front and calls, fields and the like behind; and operands with
operators between them, by precedence.

In some places, such as the condition of a loop, a brace after a name opens the body and no struct
literal; the flag `struct` of the rules below says whether one may open there.
-/

set_option autoImplicit false

namespace EnumCatalog.Syntax

open Reader

namespace Grammar

variable (g : Grammar)

/-! ## 1. Operators -/

/-- The binary operators, longer ones before those they open with. -/
def binaryOperators : List (String × Precedence) := [
  ("+=", .assign), ("-=", .assign), ("*=", .assign), ("/=", .assign), ("%=", .assign),
  ("^=", .assign), ("&=", .assign), ("|=", .assign), ("<<=", .assign), (">>=", .assign),
  ("&&", .and), ("||", .or), ("<<", .shift), (">>", .shift), ("==", .compare), ("<=", .compare),
  ("!=", .compare), (">=", .compare), ("+", .sum), ("-", .sum), ("*", .product), ("/", .product),
  ("%", .product), ("^", .bitXor), ("&", .bitAnd), ("|", .bitOr), ("<", .compare), (">", .compare)]

/-- The binary operator that the tokens open with. -/
def binaryOperator? (ts : List Token) : Option (String × Precedence) :=
  binaryOperators.find? fun o => atOp o.1 ts

/-- How tightly what follows an operand binds. -/
def precedenceAhead (ts : List Token) : Precedence :=
  match binaryOperator? ts with
  | some (_, p) => p
  | none =>
    if atOp "=" ts && !atOp "=>" ts then .assign
    else if atOp ".." ts then .range
    else if atWord "as" ts then .cast
    else .any

/-- The right side of an operator: an operand, and what binds more tightly than the operator.
Assignment groups to the right, so there an equal precedence goes on too. -/
def rightSide (struct : Bool) (p : Precedence) : Reader ExprShape := do
  g.operand struct p (← g.unary struct)

/-- More of the right side of an operator. Where what follows may not stand after a range, nothing
is read and the right side ends. -/
def moreRightSide (struct : Bool) (p : Precedence) (right : ExprShape) : Reader ExprShape := do
  let ts ← ahead
  let next := precedenceAhead ts
  if next.rank > p.rank || (next == p && p == .assign) then
    let right ← g.operators struct next right
    if (← ahead).length == ts.length then return right else g.operand struct p right
  else return right

/-- Whether a range without upper end is over. -/
def endsRange (struct : Bool) (ts : List Token) : Bool :=
  ts.isEmpty || (atOp "." ts && !atOp ".." ts) || (!struct && atGroup .brace ts) ||
    atWord "as" ts ||
    [",", ";", "?", "=>", "=", "+", "/", "%", "^", ">", "<=", "!=", "-=", "*=", "&=", "|=",
      "<<="].any (atOp · ts)

/-- The dots of a range and its upper end. -/
def rangeFrom (struct : Bool) : Reader ExprShape := do
  let closed ← rangeDots false
  if !closed && (← sees (endsRange struct)) then return .range
  discard (g.rightSide struct .range)
  return .range

/-- What may not follow a conversion, although it may follow an operand. -/
def atTrailer (ts : List Token) : Bool :=
  (atOp "." ts && !atOp ".." ts) || atOp "?" ts || atGroup .bracket ts || atGroup .paren ts

/-- Operators that bind at least as tightly as `base`, with their right sides. -/
def anyOperators (struct : Bool) (base : Precedence) (left : ExprShape) : Reader ExprShape := do
  if left == .range then return left
  let ts ← ahead
  match binaryOperator? ts with
  | some (s, p) =>
    if p.rank < base.rank then return left
    require !(p == .compare && left == .comparison)
    op s
    discard (g.rightSide struct p)
    g.operators struct base (if p == .compare then .comparison else .other)
  | none =>
    if Precedence.assign.rank ≥ base.rank && atOp "=" ts && !atOp "=>" ts then
      op "="
      discard (g.rightSide struct .assign)
      g.operators struct base .other
    else if Precedence.range.rank ≥ base.rank && atOp ".." ts then
      g.rangeFrom struct
    else if Precedence.cast.rank ≥ base.rank && atWord "as" ts then
      word "as"
      discard (g.type false)
      require !(← sees atTrailer)
      g.operators struct base .other
    else return left

/-! ## 2. Atoms -/

/-- Whether the tokens open with what can open an expression. -/
def atExpr (ts : List Token) : Bool :=
  (atIdent ts && !atWord "as" ts) || atAnyGroup ts || atLiteral ts ||
    (atOp "!" ts && !atOp "!=" ts) ||
    (atOp "-" ts && !atOp "-=" ts && !atOp "->" ts) ||
    (atOp "*" ts && !atOp "*=" ts) || (atOp "|" ts && !atOp "|=" ts) ||
    (atOp "&" ts && !atOp "&=" ts) || atOp ".." ts ||
    (atOp "<" ts && !atOp "<=" ts && !atOp "<<=" ts) || atOp "::" ts || atLifetime ts ||
    atOp "#" ts

/-- A field of a struct literal. A name alone is also its value. -/
def fieldValue : Reader Unit := do
  let _ ← g.outerAttrs
  let ts ← ahead
  if atName ts && !atOp ":" ts.tail then emit (Path.ofIdent (← silent name)).fragment
  else
    discard member
    op ":"
    g.value

/-- The fields of a struct literal, and the value that gives all others. -/
def structFields : Reader Unit :=
  inGroup .brace <| repeatWhile do
    if ← atEnd then return false
    if ← op? ".." then
      if !(← atEnd) then g.value
      return false
    g.fieldValue
    if ← atEnd then return false
    op ","
    return true

/-- A path, a macro call or a struct literal. -/
def pathExpr (struct : Bool) : Reader ExprShape := do
  let q ← g.qualifiedPath true
  let ts ← ahead
  if atOp "!" ts && !atOp "!=" ts && q.isPlain then
    op "!"
    let (d, _) ← anyGroup
    return .call (d == .brace)
  else
    if struct && atGroup .brace ts then g.structFields
    return .other

def closureParam : Reader Unit := do
  let _ ← g.outerAttrs
  discard g.pattern
  if ← op? ":" then discard (g.type true)

def closure (struct : Bool) : Reader Unit := do
  discard g.binder?
  for w in ["const", "static", "async", "move"] do
    discard (word? w)
  op "|"
  repeatWhile do
    if ← sees (atOp "|") then return false
    g.closureParam
    if ← sees (atOp "|") then return false
    op ","
    return true
  op "|"
  if ← op? "->" then
    discard (g.type true)
    g.block
  else discard (g.expr struct)

def conditional : Reader Unit :=
  repeatWhile do
    word "if"
    discard (g.expr false)
    g.block
    if ← word? "else" then
      if ← sees (atWord "if") then return true
      g.block
    return false

/-- An arm of a match. Only a body that ends with a block needs no comma before another arm. -/
def arm : Reader Unit := do
  let _ ← g.outerAttrs
  discard g.patterns
  if ← word? "if" then g.value
  op "=>"
  let shape ← g.early
  if shape != .block && !(← atEnd) then op "," else discard (op? ",")

def matching : Reader Unit := do
  word "match"
  discard (g.expr false)
  inGroup .brace do
    let _ ← g.innerAttrs
    discard (untilEnd g.arm)

/-- A loop over what an iterator yields. -/
def iteration : Reader Unit := do
  word "for"
  discard g.patterns
  word "in"
  discard (g.expr false)
  discard g.body

def whileLoop : Reader Unit := do
  word "while"
  discard (g.expr false)
  discard g.body

/-- A word and the block that follows it. -/
def wordBlock (w : String) : Reader Unit := do
  word w
  discard g.body

/-- A loop or block with a label. -/
def labeled : Reader Unit := do
  lifetime
  op ":"
  let ts ← ahead
  if atWord "while" ts then g.whileLoop
  else if atWord "for" ts then g.iteration
  else if atWord "loop" ts then g.wordBlock "loop"
  else discard g.body

/-- An expression of a block's kind, if the tokens open with one. -/
def blockLike? (ts : List Token) : Option (Reader Unit) :=
  if atWord "if" ts then some g.conditional
  else if atWord "while" ts then some g.whileLoop
  else if atWord "for" ts then some g.iteration
  else if atWord "loop" ts then some (g.wordBlock "loop")
  else if atWord "match" ts then some g.matching
  else if atWord "unsafe" ts then some (g.wordBlock "unsafe")
  else if atWord "const" ts then some (g.wordBlock "const")
  else if atGroup .brace ts then some (discard g.body)
  else if atLifetime ts then some g.labeled
  else none

/-- The end of a loop, with a label and a value. A label that is followed by a colon belongs to a
loop, which needs parentheses here. -/
def breaking (struct : Bool) : Reader Unit := do
  word "break"
  if ← lifetime? then require !(← sees (atOp ":"))
  let ts ← ahead
  if atExpr ts && (struct || !atGroup .brace ts) then g.value

/-- A word and the value that may follow it. -/
def wordValue (w : String) : Reader Unit := do
  word w
  if ← sees atExpr then g.value

/-- A value that has to match a pattern. -/
def letting (struct : Bool) : Reader Unit := do
  word "let"
  discard g.patterns
  op "="
  let left ← g.unary struct
  discard (g.operators struct .compare left)

/-- A list in brackets, or a value and how often it is repeated. -/
def array : Reader Unit :=
  inGroup .bracket do
    if !(← atEnd) then
      g.value
      if ← op? ";" then g.value
      else if !(← atEnd) then
        op ","
        discard (commaList g.value)

def atClosure (ts : List Token) : Bool :=
  let second := ts.tail
  let third := second.tail
  atOp "|" ts || atWord "move" ts ||
    (atWord "for" ts && atOp "<" second && (atLifetime third || atOp ">" third)) ||
    (atWord "const" ts && !atGroup .brace second) || atWord "static" ts ||
    (atWord "async" ts && (atOp "|" second || atWord "move" second))

/-- Whether a path or what opens with one follows. -/
def atPathExpr (ts : List Token) : Bool :=
  atPathWord ts || atOp "::" ts || atOp "<" ts ||
    (atWord "try" ts && (atOp "!" ts.tail || atOp "::" ts.tail))

/-- An expression that is complete by itself. -/
def atom (struct : Bool) : Reader ExprShape := do
  let start ← get
  let ts := start.rest
  let second := ts.tail
  if atLiteral ts then
    literal
    return .other
  else if atWord "async" ts &&
      (atGroup .brace second || (atWord "move" second && atGroup .brace second.tail)) then
    word "async"
    discard (word? "move")
    g.block
    return .other
  else if atWord "try" ts && atGroup .brace second then
    word "try"
    g.block
    return .block
  else if atClosure ts then
    g.closure struct
    return .other
  else if atWord "builtin" ts && atOp "#" second then
    word "builtin"
    op "#"
    discard name
    inGroup .paren everything
    restoreSince start
    return .asWritten
  else if atPathExpr ts then g.pathExpr struct
  else if atGroup .paren ts then
    inGroup .paren do
      if !(← atEnd) then
        g.value
        if !(← atEnd) then
          op ","
          discard (commaList g.value)
    return .other
  else if atWord "break" ts then
    g.breaking struct
    return .other
  else if atWord "continue" ts then
    word "continue"
    discard lifetime?
    return .other
  else if atWord "return" ts then
    g.wordValue "return"
    return .other
  else if atWord "become" ts then
    word "become"
    g.value
    restoreSince start
    return .asWritten
  else if atGroup .bracket ts then
    g.array
    return .other
  else if atWord "let" ts then
    g.letting struct
    return .other
  else if atWord "yield" ts then
    g.wordValue "yield"
    return .other
  else if atOp ".." ts then g.rangeFrom struct
  else if atWord "_" ts then
    word "_"
    return .other
  else
    match g.blockLike? ts with
    | some r =>
      r
      return .block
    | none => failure

/-! ## 3. Operands -/

/-- The parts of a number that stands for fields of fields: `0.1` in `pair.0.1`. A last point
belongs to what follows. -/
def fieldNumbers? (text : String) : Option (List Nat × Bool) := do
  let parts := text.splitOn "."
  let trailing := parts.getLast? == some ""
  let numbers ← (if trailing then parts.dropLast else parts).mapM fun part =>
    match Literal.kind part, Literal.int? part.toList with
    | .int, some (n, []) => if n < Nat.pow 2 32 then some n else none
    | _, _ => none
  return (numbers, trailing)

/-- What follows the point after an operand: a field, a field of a field, or a method call. -/
def afterPoint : Reader Unit := do
  op "."
  let goesOn ←
    match ← ahead with
    | .literal text :: _ =>
      if Literal.kind text == .float then
        discard next
        match fieldNumbers? text with
        | some (numbers, trailing) =>
          let fields := numbers.map fun n => [Token.literal (toString n)]
          emitTokens (List.intercalate [.punct '.' false] fields)
          if trailing then emitTokens [.punct '.' false]
          pure trailing
        | none => failure
      else pure true
    | _ => pure true
  if goesOn then
    if !(← word? "await") then
      let named ← member
      let turbofish := named && (← sees (atOp "::"))
      if turbofish then discard g.arguments
      if turbofish || (named && (← sees (atGroup .paren))) then
        discard <| inGroup .paren (commaList g.value)

/-- Calls, fields, indices and question marks after an operand. -/
def trailers (shape : ExprShape) : Reader ExprShape := do
  let others ← collect do
    let ts ← ahead
    if atGroup .paren ts then
      discard <| inGroup .paren (commaList g.value)
      return some ()
    else if atOp "." ts && !atOp ".." ts && shape != .range then
      g.afterPoint
      return some ()
    else if atGroup .bracket ts then
      inGroup .bracket g.value
      return some ()
    else if atOp "?" ts && shape != .range then
      op "?"
      return some ()
    else return none
  return if others.isEmpty then shape else .other

/-- An operand: prefix operators, an atom, and what follows it. Attributes may stand in front, but
not of a range without lower end. -/
def anyUnary (struct : Bool) : Reader ExprShape := do
  let start ← get
  let attrs ← g.outerAttrs
  let ts ← ahead
  if atOp "&" ts then
    op "&"
    let ts ← ahead
    if atWord "raw" ts && atWordIn ["mut", "const"] ts.tail then
      word "raw"
      if !(← word? "mut") then word "const"
    else discard (word? "mut")
    discard (g.unary struct)
    return .other
  else if atOp "*" ts || atOp "!" ts || atOp "-" ts then
    op (if atOp "*" ts then "*" else if atOp "!" ts then "!" else "-")
    discard (g.unary struct)
    return .other
  else
    let shape ← g.trailers (← g.atom struct)
    if shape == .asWritten then restoreSince start
    require !(shape == .range && !attrs.isEmpty)
    return shape

def anyExpr (struct : Bool) : Reader ExprShape := do
  g.operators struct .any (← g.unary struct)

/-- An expression at the start of a statement or of the body of a match arm. There an expression of
a block's kind is over with its last brace, unless a point or a question mark follows. -/
def earlyExpr : Reader ExprShape := do
  let _ ← g.outerAttrs
  let ts ← ahead
  let second := ts.tail
  let isClosure :=
    (atWord "for" ts && atOp "<" second && (atLifetime second.tail || atOp ">" second.tail)) ||
      (atWord "const" ts && !atGroup .brace second)
  let r? :=
    if isClosure then none
    else if atWord "try" ts && atGroup .brace second then
      some do
        word "try"
        g.block
    else g.blockLike? ts
  match r? with
  | none => g.operators true .any (← g.unary true)
  | some r =>
    r
    let ts ← ahead
    if (atOp "." ts && !atOp ".." ts) || atOp "?" ts then
      g.operators true .any (← g.trailers .block)
    else return .block

end Grammar

end EnumCatalog.Syntax
