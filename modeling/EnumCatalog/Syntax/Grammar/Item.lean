import EnumCatalog.Syntax.Grammar.Expression

/-!
# Items

Each item is recognised by the words in front of it, after its attributes and its visibility. The
four kinds that are looked into are read into their types; of the others the fragment is kept.

Some spellings are accepted that mean nothing yet, such as a constant without a value. These are
printed as they stand, attributes included, and mention nothing.
-/

set_option autoImplicit false

namespace EnumCatalog.Syntax

open Reader

namespace Grammar

variable (g : Grammar)

/-! ## 1. Functions -/

/-- The tokens after a word, if they open with it. -/
def afterWord (w : String) (ts : List Token) : List Token := if atWord w ts then ts.tail else ts

/-- Whether the signature of a function follows. -/
def atSignature (allowSafe : Bool) (ts : List Token) : Bool :=
  let ts := afterWord "async" (afterWord "const" ts)
  let ts := if allowSafe && atWord "safe" ts then ts.tail else afterWord "unsafe" ts
  let ts :=
    if atWord "extern" ts then
      if atLiteralOf .string ts.tail then ts.tail.tail else ts.tail
    else ts
  atWord "fn" ts

/-- The receiver of a method. Without a type of its own it is of type `Self`. -/
def receiver : Reader Unit := do
  let byRef ← op? "&"
  if byRef then discard lifetime?
  discard (word? "mut")
  word "self"
  if !byRef && (← op? ":") then discard (g.type true)
  else emit ⟨[], ["Self"]⟩

/-- The parameters of a function. Only the first may be a receiver, and dots end the list. A type
alone is accepted if it is a name with generic arguments; it prints with a pattern in front. -/
def params : Reader Unit :=
  inGroup .paren <| iterate true fun first => do
    if ← atEnd then return none
    let _ ← g.outerAttrs
    if ← op? "..." then
      if !(← atEnd) then op ","
      return none
    let received ← (do g.receiver; return true) <|> pure false
    if received then require first
    else
      let ts ← ahead
      if atName ts && atOp "<" ts.tail then
        emitTokens [.underscore, .punct ':' false]
        discard (g.type true)
      else
        discard g.pattern
        op ":"
        if ← op? "..." then
          if !(← atEnd) then op ","
          return none
        discard (g.type true)
    if ← atEnd then return none
    op ","
    return some false

/-- The signature of a function. Answers whether the word `safe` stands in it. -/
def signature (allowSafe : Bool) : Reader Bool := do
  discard (word? "const")
  discard (word? "async")
  let isUnsafe ← word? "unsafe"
  let isSafe ← if allowSafe && !isUnsafe then word? "safe" else pure false
  abi?
  word "fn"
  discard name
  discard g.generics
  g.params
  discard (g.returnType true)
  discard g.whereClause
  return isSafe

/-! ## 2. Data types -/

def namedField : Reader Unit := do
  let _ ← g.outerAttrs
  discard Visibility.read
  if ← word? "_" then
    op ":"
    let start ← get
    let ts ← ahead
    if atWord "struct" ts || (atWord "union" ts && atGroup .brace ts.tail) then
      discard anyIdent
      match ← ahead with
      | .group .brace inner :: _ =>
        let members := commaList do
          let _ ← g.outerAttrs
          discard Visibility.read
          if !(← word? "_") then discard name
          op ":"
          discard (g.type true)
        require ((members.run? inner).isSome)
        discard anyGroup
        restoreSince start
      | _ => failure
    else discard (g.type true)
  else
    discard name
    op ":"
    discard (g.type true)

def namedFields : Reader Unit := discard <| inGroup .brace (commaList g.namedField)

def unnamedFields : Reader Unit :=
  discard <| inGroup .paren <| commaList do
    let _ ← g.outerAttrs
    discard Visibility.read
    discard (g.type true)

/-- What follows the generic parameters of a struct. -/
def structRest : Reader Unit := do
  let hasWhere ← sees (atWord "where")
  discard g.whereClause
  let ts ← ahead
  if !hasWhere && atGroup .paren ts then
    g.unnamedFields
    discard g.whereClause
    op ";"
  else if atGroup .brace ts then g.namedFields
  else op ";"

def variant : Reader Variant := printing Variant.fragment do
  let attrs ← g.outerAttrs
  discard Visibility.read
  let ident ← name
  let ts ← ahead
  let fields ←
    if atGroup .brace ts then pure (Fields.named (← captured g.namedFields).2)
    else if atGroup .paren ts then pure (Fields.unnamed (← captured g.unnamedFields).2)
    else pure Fields.unit
  let discriminant ←
    if ← op? "=" then pure (some (← captured g.value).2) else pure none
  return ⟨attrs, ident, fields, discriminant⟩

/-- An enum, after its attributes and its visibility. -/
def enumAfter (attrs : List Attribute) (vis : Visibility) : Reader Enum := do
  word "enum"
  let ident ← name
  let generics ← g.generics
  let whereClause ← g.whereClause
  let (variants, trailing) ← inGroup .brace (commaList g.variant)
  return ⟨attrs, vis, ident, generics, whereClause, variants, trailing⟩

/-! ## 3. Imports -/

def anyUseTree (allowRoot : Bool) : Reader (Option UseTree) := do
  let ts ← ahead
  if atName ts || atWordIn ["self", "super", "crate", "try"] ts then
    let i ← anyIdent
    if ← op? "::" then return (← g.useTree false).map (.path i)
    else if ← word? "as" then
      require (← sees fun ts => atName ts || atWord "_" ts)
      return some (.rename i (← anyIdent))
    else return some (.name i)
  else if ← op? "*" then return some .glob
  else
    let (trees, trailing) ← inGroup .brace <| commaList do
      let rooted ← if allowRoot then op? "::" else pure false
      let tree ← g.useTree (allowRoot && !rooted)
      return if rooted then none else tree
    if trees.all Option.isSome then return some (.group (trees.filterMap id) trailing)
    else return none

/-- A `use` declaration, after its attributes and its visibility. -/
def useAfter (attrs : List Attribute) (vis : Visibility) : Reader (Option Use) := do
  word "use"
  let leading ← op? "::"
  let tree ← g.useTree !leading
  op ";"
  return tree.map (⟨attrs, vis, leading, ·⟩)

/-- An `extern crate` declaration, after its attributes and its visibility. -/
def externCrateAfter (attrs : List Attribute) (vis : Visibility) : Reader ExternCrate := do
  word "extern"
  word "crate"
  let ident ← if ← sees (atWord "self") then anyIdent else name
  let rename ←
    if ← word? "as" then
      if ← sees (atWord "_") then pure (some (← anyIdent)) else pure (some (← name))
    else pure none
  op ";"
  return ⟨attrs, vis, ident, rename⟩

/-! ## 4. Constants and type aliases -/

/-- A constant after its word; answers whether it has a value and no generic parameters, as it
should. -/
def constAfter : Reader Bool := do
  require (← sees fun ts => atName ts || atWord "_" ts)
  discard anyIdent
  let isGeneric ← sees (atOp "<")
  discard g.generics
  op ":"
  discard (g.type true)
  let hasValue ← op? "="
  if hasValue then g.value
  let hasWhere ← sees (atWord "where")
  discard g.whereClause
  op ";"
  return hasValue && !isGeneric && !hasWhere

/-- Where the `where` clause of a type alias may stand. -/
inductive WherePlace where
  | beforeValue
  | afterValue
  | either
  deriving DecidableEq

/-- A type alias; answers whether it has bounds, and whether it has a value. -/
def typeAlias (place : WherePlace) : Reader (Bool × Bool) := do
  word "type"
  discard name
  discard g.generics
  let stops (ts : List Token) : Bool := atWord "where" ts || atOp "=" ts || atOp ";" ts
  let hasBounds ← sees (atOp ":")
  afterColon <| repeatWhile do
    if ← sees stops then return false
    discard (g.bound false true)
    if ← sees stops then return false
    op "+"
    return true
  let hasWhere ← if place == .afterValue then pure false else sees (atWord "where")
  if place != .afterValue then discard g.whereClause
  let hasValue ← op? "="
  if hasValue then discard (g.type true)
  if place != .beforeValue && !hasWhere then discard g.whereClause
  op ";"
  return (hasBounds, hasValue)

/-! ## 5. Macro calls -/

/-- A macro call as an item. Only arguments in braces need no semicolon. -/
def macroCall (allowName : Bool) : Reader Unit := do
  discard Path.readPlain
  op "!"
  if allowName && (← sees fun ts => atWord "try" ts || atName ts) then discard anyIdent
  let (d, _) ← anyGroup
  if d != .brace then op ";"

/-- Whether a macro call follows, where nothing else is left. -/
def atMacroCall (ts : List Token) : Bool :=
  atName ts || atWordIn ["self", "super", "crate"] ts || atOp "::" ts

/-! ## 6. Members of traits and implementations

A member answers whether it is printed as it stands. -/

/-- A member of a block of foreign items. -/
def foreignMember : Reader Unit := do
  let start ← get
  let _ ← g.outerAttrs
  let vis ← Visibility.read
  let ts ← ahead
  if atSignature true ts then
    let isSafe ← g.signature true
    let hasBody ← sees (atGroup .brace)
    if hasBody then discard g.body else op ";"
    if isSafe || hasBody then restoreSince start
  else if atWord "static" ts || (atWordIn ["unsafe", "safe"] ts && atWord "static" ts.tail) then
    let marked := !atWord "static" ts
    if marked then discard anyIdent
    word "static"
    discard (word? "mut")
    discard name
    op ":"
    discard (g.type true)
    let hasValue ← op? "="
    if hasValue then g.value
    op ";"
    if marked || hasValue then restoreSince start
  else if atWord "type" ts then
    let (hasBounds, hasValue) ← g.typeAlias .either
    if hasBounds || hasValue then restoreSince start
  else
    require (vis.isInherited && atMacroCall ts)
    macroCall false

def traitMember : Reader Unit := do
  let start ← get
  let _ ← g.outerAttrs
  let vis ← Visibility.read
  let isDefault ← word? "default"
  let ts ← ahead
  let proper ←
    if atSignature false ts then
      discard (g.signature false)
      if ← sees (atGroup .brace) then discard g.body else op ";"
      pure true
    else if atWord "const" ts then
      word "const"
      let isGeneric ← sees fun ts => atOp "<" ts.tail
      require (← sees fun ts => atName ts || atWord "_" ts)
      discard anyIdent
      discard g.generics
      op ":"
      discard (g.type true)
      if ← op? "=" then g.value
      let hasWhere ← sees (atWord "where")
      discard g.whereClause
      op ";"
      pure (!isGeneric && !hasWhere)
    else if atWord "type" ts then
      discard (g.typeAlias .afterValue)
      pure true
    else
      require (vis.isInherited && !isDefault && atMacroCall ts)
      macroCall false
      pure true
  if !proper || !vis.isInherited || isDefault then restoreSince start

def implMember : Reader Unit := do
  let start ← get
  let _ ← g.outerAttrs
  let vis ← Visibility.read
  let ts ← ahead
  let isDefault := atWord "default" ts && !atOp "!" ts.tail
  if isDefault then word "default"
  let ts ← ahead
  if atSignature false ts then
    discard (g.signature false)
    if ← op? ";" then restoreSince start else discard g.body
  else if atWord "const" ts then
    word "const"
    if !(← g.constAfter) then restoreSince start
  else if atWord "type" ts then
    let (hasBounds, hasValue) ← g.typeAlias .afterValue
    if hasBounds || !hasValue then restoreSince start
  else
    require (vis.isInherited && !isDefault && atMacroCall ts)
    macroCall false

/-! ## 7. Blocks of members -/

/-- Members in braces, after attributes of what they belong to. -/
def members (member : Reader Unit) : Reader Unit :=
  inGroup .brace do
    let _ ← g.innerAttrs
    discard (untilEnd member)

/-- A trait after its name and generic parameters. -/
def traitRest : Reader Unit := do
  let stops (ts : List Token) : Bool := atWord "where" ts || atGroup .brace ts
  afterColon <| repeatWhile do
    if ← sees stops then return false
    discard (g.bound false true)
    if ← sees stops then return false
    op "+"
    return true
  discard g.whereClause
  g.members g.traitMember

/-- A trait, or an alias of bounds. -/
def traitAfter (allowAlias : Bool) : Reader Unit := do
  discard (word? "unsafe")
  discard (word? "auto")
  word "trait"
  discard name
  discard g.generics
  if allowAlias && (← sees (atOp "=")) then
    op "="
    let stops (ts : List Token) : Bool := atWord "where" ts || atOp ";" ts
    repeatWhile do
      if ← sees stops then return false
      discard (g.bound false false)
      if ← sees stops then return false
      op "+"
      return true
    discard g.whereClause
    op ";"
  else g.traitRest

/-- An implementation, after its attributes and its visibility; answers whether it is one that has a
meaning. -/
def implAfter : Reader Bool := do
  discard (word? "default")
  discard (word? "unsafe")
  word "impl"
  if ← sees atGenerics then discard g.generics
  let ts ← ahead
  let isConst := atWord "const" ts || (atOp "?" ts && atWord "const" ts.tail)
  if isConst then
    discard (op? "?")
    word "const"
  let start ← get
  let ts := start.rest
  let isNegative := atOp "!" ts && !atGroup .brace ts.tail
  if isNegative then op "!"
  let first ← g.type true
  let isFor ← word? "for"
  if isFor then discard (g.type true)
  else if isNegative then restoreSince start
  discard g.whereClause
  g.members g.implMember
  let ofTrait := match first with
    | .path qualified _ => !qualified
    | _ => false
  return !isConst && (!isFor || ofTrait)

def foreignBlock : Reader Unit := do
  discard (word? "unsafe")
  abi
  g.members g.foreignMember

/-! ## 8. Modules -/

/-- A module, after its attributes and its visibility. -/
def moduleAfter (attrs : List Attribute) (vis : Visibility) : Reader Item := do
  let isUnsafe ← word? "unsafe"
  word "mod"
  let ident ← if ← sees (atWord "try") then anyIdent else name
  if ← op? ";" then return .fileModule ⟨attrs, vis, isUnsafe, ident⟩
  else
    let (inner, items) ← inGroup .brace do
      let inner ← g.innerAttrs
      return (inner, ← untilEnd g.item)
    return .inlineModule ⟨attrs ++ inner, vis, isUnsafe, ident⟩ items

/-! ## 9. Any item -/

/-- An item of a kind that is not looked into, after its attributes and its visibility. Answers
whether it has a meaning; nothing, if the item is of another kind. -/
def opaqueItem? (vis : Visibility) (ts : List Token) : Option (Reader Bool) :=
  let second := ts.tail
  if atSignature false ts then
    some do
      discard (g.signature false)
      if ← op? ";" then return false
      discard g.body
      return true
  else if atWord "extern" ts then
    if vis.isInherited && (atGroup .brace second ||
        (atLiteralOf .string second && atGroup .brace second.tail)) then
      some do g.foreignBlock; return true
    else none
  else if atWord "static" ts then
    some do
      word "static"
      discard (word? "mut")
      discard name
      let hasType ← op? ":"
      if hasType then discard (g.type true)
      let hasValue ← op? "="
      if hasValue then g.value
      op ";"
      require (hasType || hasValue)
      return hasType && hasValue
  else if atWord "const" ts then
    some do
      word "const"
      g.constAfter
  else if atWord "unsafe" ts then
    if atWord "trait" second || (atWord "auto" second && atWord "trait" second.tail) then
      some do g.traitAfter false; return true
    else if atWord "impl" second then
      some do return (← g.implAfter) && vis.isInherited
    else if atWord "extern" second && vis.isInherited then
      some do g.foreignBlock; return true
    else none
  else if atWord "type" ts then
    some do
      let (hasBounds, hasValue) ← g.typeAlias .beforeValue
      return hasValue && !hasBounds
  else if atWord "struct" ts then
    some do
      word "struct"
      discard name
      discard g.generics
      g.structRest
      return true
  else if atWord "union" ts && atName second then
    some do
      word "union"
      discard name
      discard g.generics
      discard g.whereClause
      g.namedFields
      return true
  else if atWord "trait" ts then some do g.traitAfter true; return true
  else if atWord "auto" ts && atWord "trait" second then some do g.traitAfter false; return true
  else if atWord "impl" ts || (atWord "default" ts && !atOp "!" second) then
    some do return (← g.implAfter) && vis.isInherited
  else if atWord "macro" ts then
    some do
      word "macro"
      discard name
      if ← sees (atGroup .paren) then discard anyGroup
      require (← sees (atGroup .brace))
      discard anyGroup
      return false
  else if vis.isInherited && atMacroCall ts then some do macroCall true; return true
  else none

def anyItem : Reader Item := printing Item.fragment do
  let start ← get
  let (attrs, attrsFragment) ← captured g.outerAttrs
  let (vis, visFragment) ← captured Visibility.read
  let ts ← ahead
  let second := ts.tail
  let source : Reader Fragment := do
    return .plain (start.rest.take (start.rest.length - (← ahead).length))
  if atWord "enum" ts then return .enum (← g.enumAfter attrs vis)
  else if atWord "use" ts then
    match ← g.useAfter attrs vis with
    | some u => return .use u
    | none => return .other (← source)
  else if atWord "extern" ts && atWord "crate" second then
    return .externCrate (← externCrateAfter attrs vis)
  else if atWord "mod" ts || (atWord "unsafe" ts && atWord "mod" second) then
    g.moduleAfter attrs vis
  else
    match g.opaqueItem? vis ts with
    | some r =>
      let (proper, f) ← captured r
      if proper then return .other (attrsFragment ++ visFragment ++ f)
      else return .other (← source)
    | none => failure

/-! ## 10. Statements -/

/-- Whether an item follows and not an expression, told by the words in front. -/
def atItem (ts : List Token) : Bool :=
  let second := ts.tail
  let third := second.tail
  atWordIn ["pub", "extern", "use", "fn", "mod", "type", "struct", "enum", "trait", "impl",
    "macro"] ts ||
    (atWord "crate" ts && !atOp "::" second) ||
    (atWord "static" ts &&
      (atWord "mut" second ||
        (atName second && !(atWord "async" second && (atWord "move" third || atOp "|" third))))) ||
    (atWord "const" ts &&
      !(atGroup .brace second || atWord "static" second ||
        (atWord "async" second && !atWordIn ["unsafe", "extern", "fn"] third) ||
        atWord "move" second || atOp "|" second)) ||
    (atWord "unsafe" ts && !atGroup .brace second) ||
    (atWord "async" ts && atWordIn ["unsafe", "extern", "fn"] second) ||
    (atWord "union" ts && atName second) || (atWord "auto" ts && atWord "trait" second) ||
    (atWord "default" ts && atWordIn ["unsafe", "impl"] second)

/-- A declaration of local names. A value that ends with a brace cannot have an alternative. -/
def localDecl : Reader Unit := do
  word "let"
  discard g.pattern
  if ← op? ":" then discard (g.type true)
  if ← op? "=" then
    let (_, f) ← captured g.value
    emit f
    if !atGroup .brace f.tokens.getLast?.toList && (← word? "else") then g.block
  op ";"

/-- What a statement that opens with a path and an exclamation mark turns out to be. -/
inductive MacroStart where
  | none
  /-- A macro that is given a name, which makes it an item. -/
  | item
  /-- A macro call with braces, which is a statement of its own. -/
  | braces
  deriving DecidableEq

/-- Looks for a macro call at the start of a statement. -/
def macroStart (ts : List Token) : MacroStart :=
  match StateT.run Path.readPlain (start ts) with
  | Option.none => .none
  | some (_, c) =>
    let second := c.rest.tail
    let third := second.tail
    if !atOp "!" c.rest then .none
    else if atName second || atWord "try" second then .item
    else if atGroup .brace second && !((atOp "." third && !atOp ".." third) || atOp "?" third) then
      .braces
    else .none

/-- A statement; answers whether another may follow without a semicolon. -/
def statement : Reader Bool := do
  let start ← get
  let _ ← g.outerAttrs
  let ts ← ahead
  let kind := macroStart ts
  if kind == .braces then
    discard Path.readPlain
    op "!"
    discard anyGroup
    discard (op? ";")
    return true
  else if atWord "let" ts then
    g.localDecl
    return true
  else if kind == .item || atItem ts then
    set start
    discard g.item
    return true
  else
    let shape ← g.early
    let hasSemi ← op? ";"
    return hasSemi || shape == .block || shape == .call true

/-- The statements of a block, with any number of semicolons between them. -/
def allStatements : Reader Unit :=
  repeatWhile do
    repeatWhile (op? ";")
    if ← atEnd then return false
    let mayGoOn ← g.statement
    if ← atEnd then return false
    require mayGoOn
    return true

end Grammar

end EnumCatalog.Syntax
