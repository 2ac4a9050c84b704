import EnumCatalog.Marker
import EnumCatalog.Text.Escape

/-!
# Expansion of a tagged enum

A tagged enum is written out unchanged, and after it an implementation of the interface through
which it is registered: the enum's name, the names of its variants in order, the database name if
the tag gives one, and the two functions between variants and their names (`Expansion.tokens`).

The tag takes one argument, the database name, and at most once. Enums that are generic, or that
have a variant with fields, have no fixed list of values and are refused. Arguments are looked at
before the item, and generics before variants (`Expansion.ofTokens`).
-/

set_option autoImplicit false

namespace EnumCatalog

open Syntax (Enum Variant Item Path Reader)

/-- A tagged enum that can be written out. -/
structure Expansion where
  enum : Enum
  /-- The literal of the database name as it was written. -/
  aliasName : Option String
  deriving Inhabited

namespace Expansion

/-- Why a tagged item is refused. -/
inductive Error where
  /-- The arguments are no list of arguments, or the item is no item. -/
  | malformed
  | emptyAlias
  | repeatedAlias
  | unsupportedArgument
  | notEnum
  | generic
  | variantWithFields
  deriving DecidableEq, Repr

/-- The wording of an error; a malformed text is for the grammar to explain. -/
def Error.message? : Error → Option String
  | .malformed => none
  | .emptyAlias => some "pg_enum alias must not be empty"
  | .repeatedAlias => some "duplicate pg_enum alias"
  | .unsupportedArgument => some "unsupported pg_enum argument, expected `alias = \"...\"`"
  | .notEnum => some "#[pg_enum] can only be applied to enums"
  | .generic => some "#[pg_enum] enums cannot be generic"
  | .variantWithFields => some "#[pg_enum] enums may only contain unit variants"

/-! ## 1. Arguments -/

/-- Reads the name of an argument. Any keyword will do. -/
def argumentName : Reader Path := do
  let leading ← Reader.op? "::"
  let first ← Reader.anyIdent
  let others ← Reader.collect do
    if ← Reader.op? "::" then return some (← Reader.anyIdent) else return none
  return ⟨leading, (first :: others).map (⟨·, none⟩)⟩

/-- Reads an equals sign and a literal. -/
def argumentValue : Reader Syntax.Fragment := do
  Reader.op "="
  return (← Reader.captured Reader.literal).2

/-- Reads one argument. Answers the literal that it gives as the database name, and what is left. -/
def argument (given : Option String) (ts : List Token) :
    Except Error (String × List Token) :=
  match StateT.run argumentName (Reader.start ts) with
  | none => .error .malformed
  | some (name, c) =>
    if !name.isWord Marker.aliasArgument then .error .unsupportedArgument
    else
      match StateT.run argumentValue (Reader.start c.rest) with
      | none => .error .malformed
      | some (f, c) =>
        match f.tokens, f.stringValue? with
        | [.literal text], some value =>
          if value.isEmpty then .error .emptyAlias
          else if given.isSome then .error .repeatedAlias
          else .ok (text, c.rest)
        | _, _ => .error .malformed

/-- Reads at most `n` arguments with commas between them; a comma may also follow the last. -/
def argumentsWithin : Nat → Option String → List Token → Except Error (Option String)
  | 0, _, _ => .error .malformed
  | n + 1, given, ts =>
    match argument given ts with
    | .error e => .error e
    | .ok (text, []) => .ok (some text)
    | .ok (text, [.punct ',' _]) => .ok (some text)
    | .ok (text, .punct ',' _ :: rest) => argumentsWithin n (some text) rest
    | .ok _ => .error .malformed

/-- Reads the arguments of the tag. There may be none. -/
def arguments (ts : List Token) : Except Error (Option String) :=
  if ts.isEmpty then .ok none else argumentsWithin ts.length none ts

/-! ## 2. The item -/

/-- The enum of an item that can be tagged. -/
def enumOf : Item → Except Error Enum
  | .enum e =>
    if e.isGeneric then .error .generic
    else if e.variants.all (·.fields.isUnit) then .ok e
    else .error .variantWithFields
  | _ => .error .notEnum

/-- The expansion of a tag's arguments and the item that it is on. -/
def ofTokens (args item : List Token) : Except Error Expansion := do
  let aliasName ← arguments args
  match Item.ofTokens? item with
  | none => throw .malformed
  | some i => return ⟨← enumOf i, aliasName⟩

/-! ## 3. Writing out -/

open Token (word operator paren bracket brace)

/-- Names with a double colon before each. -/
def rooted (names : List Ident) : List Token :=
  names.flatMap fun n => operator [':', ':'] ++ [.ident n]

/-- A punctuation character that stands alone. -/
def mark (c : Char) : Token := .punct c false

/-- The type of a text that lives as long as the program. -/
def staticText : List Token := [mark '&', .lifetime (.plain "static"), word "str"]

def optional (type : List Token) : List Token :=
  rooted [.plain "core", .plain "option", .plain "Option"] ++ mark '<' :: type ++ [mark '>']

/-- An optional value that is there. -/
def present (value : List Token) : List Token :=
  rooted [.plain "core", .plain "option", .plain "Option", .plain "Some"] ++ [paren value]

/-- An optional value that is not there. -/
def absent : List Token :=
  rooted [.plain "core", .plain "option", .plain "Option", .plain "None"]

def nameLiteral (name : String) : Token := .literal (Text.quoted name)

/-- The name of a variant as a path. -/
def variantPath (v : Variant) : List Token := word "Self" :: operator [':', ':'] ++ [.ident v.ident]

def constant (name : Ident) (type value : List Token) : List Token :=
  [word "const", .ident name, mark ':'] ++ type ++ mark '=' :: value ++ [mark ';']

def function (name : Ident) (parameters result body : List Token) : List Token :=
  [word "fn", .ident name, paren parameters] ++ operator ['-', '>'] ++ result ++ [brace body]

/-- An arm of a case distinction. -/
def arm (pattern value : List Token) : List Token :=
  pattern ++ operator ['=', '>'] ++ value ++ [mark ',']

def cases (subject : List Token) (arms : List (List Token)) : List Token :=
  word "match" :: subject ++ [brace arms.flatten]

def literals (names : List String) : List Token :=
  List.intercalate [mark ','] (names.map fun n => [nameLiteral n])

def variantNames (x : Expansion) : List String := x.enum.variants.map (·.ident.name)

def constantTokens (x : Expansion) : List Token :=
  constant (.plain "RUST_NAME") staticText [nameLiteral x.enum.ident.name] ++
    constant (.plain "VARIANTS") [mark '&', .lifetime (.plain "static"), bracket staticText]
      [mark '&', bracket (literals x.variantNames)] ++
    match x.aliasName with
    | some text => constant (.plain "PG_ALIAS") (optional staticText) (present [.literal text])
    | none => []

/-- The function from variants to their names. -/
def nameTokens (x : Expansion) : List Token :=
  function (.plain "variant_name") [mark '&', word "self"] staticText <|
    cases [mark '*', word "self"] <| x.enum.variants.map fun v =>
      arm (variantPath v) [nameLiteral v.ident.name]

/-- The function from names to variants. -/
def variantTokens (x : Expansion) : List Token :=
  function (.plain "from_variant") [word "name", mark ':', mark '&', word "str"] (optional [word "Self"]) <|
    cases [word "name"] <| (x.enum.variants.map fun v =>
      arm [nameLiteral v.ident.name] (present (variantPath v))) ++ [arm [.underscore] absent]

def implementationTokens (x : Expansion) : List Token :=
  word "impl" :: rooted [.plain "pgenum", .plain "PgEnum"] ++ [word "for", .ident x.enum.ident,
    brace (x.constantTokens ++ x.nameTokens ++ x.variantTokens)]

def tokens (x : Expansion) : List Token := x.enum.fragment.tokens ++ x.implementationTokens

/-- The text of the enum and its implementation. -/
def text (x : Expansion) : String := Token.textAll x.tokens

end Expansion

end EnumCatalog
