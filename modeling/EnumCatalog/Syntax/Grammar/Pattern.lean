import EnumCatalog.Syntax.Grammar.Type

/-!
# Patterns

What a value is matched against. A name alone is a binding and mentions nothing; as soon as
something follows it that only a path can have, it is a path and mentions its first name.
-/

set_option autoImplicit false

namespace EnumCatalog.Syntax

open Reader

namespace Grammar

variable (g : Grammar)

/-- The name or number of a field. A number prints as its value. -/
def member : Reader Bool := do
  let ts ← ahead
  if atName ts then
    discard name
    return true
  else
    match ts with
    | .literal text :: _ =>
      match Literal.int? text.toList with
      | some (n, []) =>
        require (Literal.kind text == .int && n < Nat.pow 2 32)
        discard next
        emitTokens [.literal (toString n)]
        return false
      | _ => failure
    | _ => failure

/-- The dots of a range; answers whether they include the upper end. In patterns an older spelling
with three dots is accepted, which prints as the newer one. -/
def rangeDots (allowOlder : Bool) : Reader Bool := do
  let ts ← ahead
  if atOp "..=" ts then
    op "..="
    return true
  else if atOp "..." ts then
    require allowOlder
    silent (op "...")
    emitTokens (Token.operator ['.', '.', '='])
    return true
  else
    op ".."
    return false

/-- A block in front of which the word `const` stands. -/
def constBlock : Reader Unit := do
  word "const"
  discard g.body

/-- An end of a range pattern, if there is one. -/
def rangeEnd? : Reader Bool := do
  let ts ← ahead
  if ts.isEmpty || atOp "|" ts || atOp "=" ts || (atOp ":" ts && !atOp "::" ts) || atOp "," ts ||
      atOp ";" ts || atWord "if" ts then
    return false
  else if atLiteral ts then
    literal
    return true
  else if atPathWord ts || atOp "::" ts || atOp "<" ts then
    discard (g.qualifiedPath true)
    return true
  else
    require (atWord "const" ts)
    g.constBlock
    return true

/-- What follows the lower end of a range pattern. -/
def rangeAfter : Reader PatternShape := do
  let closed ← rangeDots true
  let hasEnd ← g.rangeEnd?
  require (hasEnd || !closed)
  return if hasEnd then .other else .openRange

/-- The fields of a struct in a pattern. -/
def fieldPatterns : Reader Unit :=
  inGroup .brace <| repeatWhile do
    if ← atEnd then return false
    let _ ← g.outerAttrs
    if ← op? ".." then return false
    let start ← get
    let boxed ← word? "box"
    let byRef ← word? "ref"
    let mutable ← word? "mut"
    let plain := !boxed && !byRef && !mutable
    let named ←
      if plain then member
      else
        discard name
        pure true
    if !named || (plain && (← sees (atOp ":"))) then
      op ":"
      discard g.patterns
    else if boxed then restoreSince start
    if ← atEnd then return false
    op ","
    return true

/-- A pattern that opens with a path. -/
def pathPattern : Reader PatternShape := do
  let q ← g.qualifiedPath true
  let ts ← ahead
  if atOp "!" ts && !atOp "!=" ts && q.isPlain then
    op "!"
    discard anyGroup
    return .other
  else if atGroup .brace ts then
    g.fieldPatterns
    return .other
  else if atGroup .paren ts then
    discard <| inGroup .paren (commaList g.patterns)
    return .other
  else if atOp ".." ts then g.rangeAfter
  else return .other

/-- A pattern that binds a name. -/
def bindingPattern : Reader Unit := do
  discard (word? "ref")
  discard (word? "mut")
  if ← sees (atWord "self") then word "self" else discard name
  if ← op? "@" then discard g.pattern

/-- Whether a name is the start of a path pattern, told by what follows it. -/
def atPathPattern (ts : List Token) : Bool :=
  let after := ts.tail
  (atName ts &&
    (atOp "::" after || atOp "!" after || atGroup .brace after || atGroup .paren after ||
      atOp ".." after)) ||
    (atWord "self" ts && atOp "::" after) || atOp "::" ts || atOp "<" ts ||
    atWordIn ["Self", "super", "crate"] ts

/-- Any pattern without alternatives. -/
def anyPattern : Reader PatternShape := do
  let start ← get
  let ts := start.rest
  if atPathPattern ts then g.pathPattern
  else if atWord "_" ts then
    word "_"
    return .other
  else if atWord "box" ts then
    word "box"
    discard g.pattern
    restoreSince start
    return .other
  else if atOp "-" ts || atLiteral ts || atWord "const" ts then
    require (← g.rangeEnd?)
    if ← sees (atOp "..") then g.rangeAfter else return .other
  else if atWordIn ["ref", "mut", "self"] ts || atName ts then
    g.bindingPattern
    return .other
  else if atOp "&" ts then
    op "&"
    discard (word? "mut")
    discard g.pattern
    return .other
  else if atGroup .paren ts then
    discard <| inGroup .paren (commaList g.patterns)
    return .other
  else if atGroup .bracket ts then
    inGroup .bracket do
      discard <| commaList do require ((← g.patterns) != .openRange)
    return .other
  else
    require (atOp ".." ts && !atOp "..." ts)
    let closed ← rangeDots false
    let hasEnd ← g.rangeEnd?
    require (hasEnd || !closed)
    return if hasEnd then .openRange else .rest

end Grammar

end EnumCatalog.Syntax
