import EnumCatalog.Syntax.Grammar

/-!
# Types, generic arguments and generic parameters

The rules that paths need to be read in full, and the types built on them. A path comes in two
styles: within a type, an angle bracket right after a name opens generic arguments; within an
expression it would be a comparison, so there it takes double colons.
-/

set_option autoImplicit false

namespace EnumCatalog.Syntax

open Reader

namespace Grammar

variable (g : Grammar)

/-! ## 1. Generic arguments and paths -/

/-- A constant as a generic argument: a literal, a name or a block. -/
def constArgument : Reader Unit := do
  let ts ← ahead
  if atLiteral ts then literal
  else if atName ts then emit (Path.ofIdent (← silent name)).fragment
  else
    let _ ← g.outerAttrs
    discard g.body

/-- Bounds with plus signs up to a token that ends them; a plus sign may also come last. -/
def boundsUntil (stops : List Token → Bool) : Reader Unit :=
  repeatWhile do
    if ← sees stops then return false
    let _ ← g.bound false true
    op? "+"

/-- Items up to a closing angle bracket, with commas between them. Lifetimes print before all else.
Each item answers whether it is a lifetime. -/
def angleList (item : Reader Bool) : Reader (List Fragment × Bool) := do
  let items ← collect do
    if ← sees (atOp ">") then return none
    let (isLifetime, f) ← captured item
    if ← sees (atOp ">") then return some (isLifetime, f, false)
    silent (op ",")
    return some (isLifetime, f, true)
  let sorted := items.filter (·.1) ++ items.filter (!·.1)
  return (sorted.map (·.2.1), (sorted.getLast?.map (·.2.2)).getD false)

/-- A generic argument; answers whether it is a lifetime. A name before an equals sign or a colon
is a member of the trait and no path, so it mentions nothing. -/
def argument : Reader Bool := do
  let ts ← ahead
  if atLifetime ts && !atOp "+" ts.tail then
    lifetime
    return true
  else if atLiteral ts || atGroup .brace ts then
    g.constArgument
    return false
  else
    let start ← get
    let shape ← g.type true
    if shape == .path false true then
      if ← op? "=" then
        forgetMention start
        if ← sees fun ts => atLiteral ts || atGroup .brace ts then g.constArgument
        else discard (g.type true)
      else if ← op? ":" then
        forgetMention start
        g.boundsUntil fun ts => atOp "," ts || atOp ">" ts
    return false

/-- Whether generic arguments follow a name. -/
def atArguments (exprStyle : Bool) (ts : List Token) : Bool :=
  (!exprStyle && atOp "<" ts && !atOp "<=" ts && !atOp "<<=" ts) ||
    (atOp "::" ts && atOp "<" (ts.drop 2))

/-- Generic arguments, with or without double colons in front. -/
def arguments : Reader GenericArgs := printing GenericArgs.fragment do
  let turbofish ← op? "::"
  op "<"
  let (args, trailing) ← angleList g.argument
  op ">"
  return ⟨turbofish, args, trailing⟩

def segment (exprStyle : Bool) : Reader Segment := printing Segment.fragment do
  let ts ← ahead
  if atWordIn ["super", "self", "crate", "try"] ts then return ⟨← anyIdent, none⟩
  else
    let i ← if atWord "Self" ts then anyIdent else name
    if ← sees (atArguments exprStyle) then return ⟨i, some (← g.arguments)⟩
    else return ⟨i, none⟩

/-- The segments of a path after its first. Parentheses after double colons belong to a type. -/
def moreSegments (exprStyle : Bool) : Reader (List Segment) :=
  collect do
    let ts ← ahead
    if atOp "::" ts && !atGroup .paren (ts.drop 2) then
      op "::"
      return some (← g.segment exprStyle)
    else return none

def path (exprStyle : Bool) : Reader Path := printing Path.fragment do
  let leading ← op? "::"
  let first ← g.segment exprStyle
  return ⟨leading, first :: (← g.moreSegments exprStyle)⟩

end Grammar

/-- A path that may start from a type in angle brackets. -/
structure QualifiedPath where
  /-- The type in angle brackets, with the trait it is seen as. -/
  source : Option Fragment
  /-- The path, or what of it follows the brackets. -/
  path : Path
  deriving Inhabited

namespace QualifiedPath

/-- How it prints. If no trait stands in the brackets, the first name after them counts as the
path's first name. -/
def fragment (q : QualifiedPath) : Fragment :=
  match q.source with
  | none => q.path.fragment
  | some f => f ++ .plain (Token.operator [':', ':']) ++ Path.joined q.path.segments

/-- Whether it is a plain path without anything in front. -/
def isPlain (q : QualifiedPath) : Bool := q.source.isNone && q.path.isPlain

/-- Whether the last segment has no generic arguments, or an empty list of them. -/
def endsBare (q : QualifiedPath) : Bool :=
  q.path.segments.getLast?.any fun s => s.args.all (·.args.isEmpty)

/-- The path without an empty list of arguments after its last segment. -/
def bare (q : QualifiedPath) : QualifiedPath :=
  match q.path.segments.getLast? with
  | some s => { q with path.segments := q.path.segments.dropLast ++ [{ s with args := none }] }
  | none => q

end QualifiedPath

namespace Grammar

variable (g : Grammar)

/-- A path that may start from a type in angle brackets. -/
def qualifiedPath (exprStyle : Bool) : Reader QualifiedPath := printing QualifiedPath.fragment do
  if ← sees (atOp "<") then
    let (hasTrait, f) ← captured do
      op "<"
      let _ ← g.type true
      let hasTrait ← word? "as"
      if hasTrait then discard (g.path false)
      op ">"
      return hasTrait
    op "::"
    let first ← g.segment exprStyle
    let others ← collect do
      if ← op? "::" then return some (← g.segment exprStyle) else return none
    let mention := if hasTrait then [] else [first.ident.text]
    return ⟨some (f ++ ⟨[], mention⟩), ⟨false, first :: others⟩⟩
  else return ⟨none, ← g.path exprStyle⟩

/-! ## 2. Function types -/

/-- The type after an arrow, if there is one. -/
def returnType (plus : Bool) : Reader (Option TypeShape) := do
  if ← op? "->" then return some (← g.type plus) else return none

/-- The types of a function's arguments and result, in the form in which traits of functions take
them. Answers whether a path may go on after it. -/
def functionArgs : Reader Bool := do
  discard <| inGroup .paren (commaList (g.type true))
  return match ← g.returnType false with
    | none => true
    | some shape => shape == .paren

/-- Whether parentheses follow, possibly after double colons, which do not print. -/
def atFunctionArgs (ts : List Token) : Bool :=
  atGroup .paren ts || (atOp "::" ts && atGroup .paren (ts.drop 2))

/-- A path as a type. Answers the path without what parentheses add to it, and whether there were
any. -/
def typePath : Reader (QualifiedPath × Bool) := do
  let q ← silent (g.qualifiedPath false)
  if q.endsBare && (← sees atFunctionArgs) then
    emit q.bare.fragment
    repeatWhile do
      discard (silent (op? "::"))
      if ← g.functionArgs then
        let more ← g.moreSegments false
        return (QualifiedPath.mk none ⟨false, more⟩).endsBare && (← sees atFunctionArgs)
      else return false
    return (q, true)
  else
    emit q.fragment
    return (q, false)

/-- The name of a foreign function's convention. -/
def abi : Reader Unit := do
  word "extern"
  if ← sees (atLiteralOf .string) then literal

/-- The name of a foreign function's convention, if there is one. -/
def abi? : Reader Unit := do
  if ← sees (atWord "extern") then abi

/-- Whether an argument of a function type has a name. -/
def atArgName (ts : List Token) : Bool :=
  (atName ts || atWord "_" ts) && atOp ":" ts.tail

/-- An argument of a function type, after its attributes. A receiver is accepted in first place and
printed as it stands. -/
def functionTypeArg (first : Bool) : Reader Unit := do
  let start ← get
  let atMutSelf (ts : List Token) : Bool := first && atWord "mut" ts && atWord "self" ts.tail
  let mutSelf := atMutSelf start.rest
  if mutSelf then word "mut"
  let ts ← ahead
  let selfNamed := first && atWord "self" ts
  let named := (atName ts || atWord "_" ts || selfNamed) && atOp ":" ts.tail && !atOp "::" ts.tail
  if named then
    discard anyIdent
    op ":"
  if !(named && selfNamed) && (← sees atMutSelf) then
    word "mut"
    word "self"
    restoreSince start
  else if mutSelf && !named then
    word "self"
    restoreSince start
  else
    discard (g.type true)
    if mutSelf then restoreSince start

/-- Whether the three dots that end a function type's arguments follow. -/
def atVariadic (ts : List Token) : Bool :=
  atOp "..." ts || ((atName ts || atWord "_" ts) && atOp ":" ts.tail && atOp "..." (ts.drop 2))

/-- The three dots that end a function type's arguments. -/
def variadic : Reader Unit := do
  if !(← sees (atOp "...")) then
    discard anyIdent
    op ":"
  op "..."
  discard (op? ",")

def functionType : Reader Unit := do
  discard (word? "unsafe")
  abi?
  word "fn"
  inGroup .paren do
    iterate true fun first => do
      if ← atEnd then return none
      let _ ← g.outerAttrs
      if ← sees atVariadic then
        variadic
        return none
      g.functionTypeArg first
      if ← atEnd then return none
      op ","
      return some false
  discard (g.returnType false)

/-! ## 3. Generic parameters and bounds -/

/-- Lifetimes with plus signs up to a token that ends them. -/
def lifetimesUntil (stops : List Token → Bool) : Reader Unit :=
  repeatWhile do
    if ← sees stops then return false
    lifetime
    op? "+"

/-- A colon and what follows it; the colon does not print if nothing does. -/
def afterColon (r : Reader Unit) : Reader Unit := do
  if ← silent (op? ":") then
    let (_, f) ← captured r
    if !f.isEmpty then
      emitTokens [.punct ':' false]
      emit f

/-- A generic parameter after its attributes; answers whether it is a lifetime. -/
def parameter (allowUnderscore : Bool) : Reader Bool := do
  let ts ← ahead
  if atLifetime ts then
    lifetime
    afterColon (lifetimesUntil fun ts => atOp "," ts || atOp ">" ts)
    return true
  else if atName ts then
    discard name
    afterColon (g.boundsUntil fun ts => atOp "," ts || atOp ">" ts || atOp "=" ts)
    if ← op? "=" then discard (g.type true)
    return false
  else if atWord "const" ts then
    word "const"
    discard name
    op ":"
    discard (g.type true)
    if ← op? "=" then g.constArgument
    return false
  else
    require allowUnderscore
    word "_"
    return false

/-- The parameters that a type or bound is made for all of, if it is. Answers whether it is. -/
def binder? : Reader Bool := do
  if ← word? "for" then
    op "<"
    repeatWhile do
      if ← sees (atOp ">") then return false
      let _ ← g.outerAttrs
      discard (g.parameter false)
      if ← sees (atOp ">") then return false
      op ","
      return true
    op ">"
    return true
  else return false

/-- Generic parameters, if there are any. Answers them as they print; an empty list of them prints
nothing. -/
def generics : Reader Fragment := printing id do
  if ← sees (atOp "<") then
    op "<"
    let (params, trailing) ← angleList do
      let _ ← g.outerAttrs
      g.parameter true
    op ">"
    if params.isEmpty then return .empty
    else return .plain [.punct '<' false] ++ .commaSeparated trailing params ++
      .plain [.punct '>' false]
  else return .empty

/-- Whether an angle bracket opens generic parameters and not a path that starts from a type. -/
def atGenerics (ts : List Token) : Bool :=
  let second := ts.tail
  let third := second.tail
  atOp "<" ts &&
    (atOp ">" second || atOp "#" second || atWord "const" second ||
      ((atLifetime second || atName second) &&
        (atOp ">" third || atOp "," third || (atOp ":" third && !atOp "::" third) ||
          atOp "=" third)))

/-- A bound by a trait. Answers whether the word `const` stands in it. -/
def traitBound (allowConst : Bool) : Reader Bool := do
  let forAll ← g.binder?
  let ts ← ahead
  let isConst := atGroup .bracket ts || atWord "const" ts
  if isConst then
    require allowConst
    if atGroup .bracket ts then inGroup .bracket (word "const") else word "const"
  if ← op? "?" then
    require !forAll
    require !(← g.binder?)
  let q : QualifiedPath := ⟨none, ← silent (g.path false)⟩
  if q.endsBare && (← sees atFunctionArgs) then
    emit q.bare.fragment
    discard (silent (op? "::"))
    discard g.functionArgs
  else emit q.fragment
  return isConst

/-- The parameters that a hidden type captures. -/
def captures : Reader Unit := do
  word "use"
  op "<"
  repeatWhile do
    let ts ← ahead
    if atOp ">" ts then return false
    if atLifetime ts then lifetime
    else
      require (atName ts || atWord "Self" ts)
      discard anyIdent
    if ← sees (atOp ">") then return false
    op ","
    return true
  op ">"

/-- A bound, with or without parentheses. -/
def anyBound (allowCaptures allowConst : Bool) : Reader BoundShape := do
  let start ← get
  if atLifetime start.rest then
    lifetime
    return .lifetime
  else if atWord "use" start.rest then
    captures
    require allowCaptures
    return .capture
  else
    let isConst ←
      if atGroup .paren start.rest then inGroup .paren (g.traitBound allowConst)
      else g.traitBound allowConst
    if isConst then
      restoreSince start
      return .constTrait
    else return .trait

/-- Whether another bound follows a plus sign. -/
def atBound (ts : List Token) : Bool :=
  atIdent ts || atOp "::" ts || atOp "?" ts || atLifetime ts || atGroup .paren ts

/-- Bounds with plus signs, or one bound. Answers their shapes, and whether a plus sign comes last.
-/
def bounds (plus allowCaptures allowConst : Bool) : Reader (List BoundShape × Bool) := do
  let first ← g.bound allowCaptures allowConst
  let others ← collect do
    let ts ← ahead
    let next := ts.tail
    if plus && atOp "+" ts &&
        (atBound next || (allowConst && (atGroup .bracket next || atWord "const" next))) then
      op "+"
      return some (← g.bound allowCaptures allowConst)
    else return none
  let trailing ← if plus then op? "+" else pure false
  return (first :: others, trailing)

/-- The bounds of a type that is known by a trait, of which there has to be one. -/
def objectBounds (plus allowCaptures allowConst : Bool) : Reader TypeShape := do
  let (shapes, trailing) ← g.bounds plus allowCaptures allowConst
  require (shapes.any fun s => s == .trait || s == .constTrait)
  return .bounds (shapes.length == 1 && !trailing)

/-- The predicates of a `where` clause end before these. -/
def endsPredicates (ts : List Token) : Bool :=
  ts.isEmpty || atGroup .brace ts || atOp "," ts || atOp ";" ts ||
    (atOp ":" ts && !atOp "::" ts) || atOp "=" ts

/-- A predicate of a `where` clause. -/
def predicate : Reader Unit := do
  let ts ← ahead
  if atLifetime ts && atOp ":" ts.tail then
    lifetime
    op ":"
    lifetimesUntil fun ts =>
      ts.isEmpty || atGroup .brace ts || atOp "," ts || atOp ";" ts || atOp ":" ts || atOp "=" ts
  else
    discard g.binder?
    discard (g.type true)
    op ":"
    g.boundsUntil endsPredicates

/-- A `where` clause, if there is one. Answers it as it prints; one without predicates prints
nothing. -/
def whereClause : Reader Fragment := printing id do
  if ← word? "where" then
    let (_, f) ← captured <| repeatWhile do
      if ← sees endsPredicates then return false
      g.predicate
      op? ","
    if f.isEmpty then return .empty else return .plain [.word "where"] ++ f
  else return .empty

/-! ## 4. Types -/

/-- More bounds after a first one. -/
def plusBounds : Reader Unit :=
  repeatWhile do
    if ← op? "+" then
      discard (g.bound false false)
      return true
    else return false

/-- What parentheses of a type turn out to hold. -/
inductive ParenType where
  | tuple
  | lifetimeBounds
  | maybeBound
  | single (s : TypeShape)

/-- A type that opens with a parenthesis. -/
def parenType (plus : Bool) : Reader TypeShape := do
  let inside ← inGroup .paren do
    let ts ← ahead
    if ts.isEmpty then return ParenType.tuple
    else if atLifetime ts then
      discard (g.objectBounds true false false)
      return .lifetimeBounds
    else if atOp "?" ts then
      discard (g.traitBound false)
      return .maybeBound
    else
      let first ← g.type true
      if ← op? "," then
        discard (commaList (g.type true))
        return .tuple
      else return .single first
  match inside with
  | .tuple => return .other
  | .lifetimeBounds => return .paren
  | .maybeBound =>
    let alone := !(← sees (atOp "+"))
    g.plusBounds
    return .bounds alone
  | .single first =>
    let isBound := match first with
      | .path qualified _ => !qualified
      | .bounds single => single
      | _ => false
    if plus && isBound && (← sees (atOp "+")) then
      g.plusBounds
      return .bounds false
    else return .paren

/-- A type that opens with a path; `forAll` if parameters stand before it. -/
def pathType (plus forAll : Bool) : Reader TypeShape := do
  let (q, hasParens) ← g.typePath
  let shape : TypeShape :=
    .path q.source.isSome (q.source.isNone && !q.path.leading && q.path.segments.length == 1 &&
      !hasParens)
  if q.source.isSome then return shape
  let ts ← ahead
  if atOp "!" ts && !atOp "!=" ts && q.isPlain && !hasParens then
    op "!"
    discard anyGroup
    return .other
  else if forAll || (plus && atOp "+" ts) then
    let others ← collect do
      let ts ← ahead
      if plus && atOp "+" ts && atBound ts.tail then
        op "+"
        return some (← g.bound false false)
      else return none
    let trailing ← if plus then op? "+" else pure false
    return .bounds (others.isEmpty && !trailing)
  else return shape

def anyType (plus : Bool) : Reader TypeShape := do
  let start ← get
  let forAll ← g.binder?
  let ts ← ahead
  if forAll then
    require (atPathWord ts || atWordIn ["fn", "unsafe", "extern"] ts)
  if atGroup .paren ts then g.parenType plus
  else if atWordIn ["fn", "unsafe", "extern"] ts then
    g.functionType
    return .other
  else if atPathWord ts || atOp "::" ts || atOp "<" ts then g.pathType plus forAll
  else if atWord "dyn" ts then
    word "dyn"
    let star ← op? "*"
    discard (g.objectBounds plus false false)
    if star then restoreSince start
    return .other
  else if atGroup .bracket ts then
    inGroup .bracket do
      discard (g.type true)
      if ← op? ";" then g.value
    return .other
  else if atOp "*" ts then
    op "*"
    if ← word? "const" then pure () else word "mut"
    discard (g.type false)
    return .other
  else if atOp "&" ts then
    op "&"
    discard lifetime?
    discard (word? "mut")
    discard (g.type false)
    return .other
  else if atOp "!" ts then
    op "!"
    return .other
  else if atWord "impl" ts then
    word "impl"
    discard (g.objectBounds plus true true)
    return .other
  else if atWord "_" ts then
    word "_"
    return .other
  else
    require (atLifetime ts)
    g.objectBounds true false false

end Grammar

end EnumCatalog.Syntax
