import EnumCatalog.Syntax.Attribute
import EnumCatalog.Syntax.Visibility

/-!
# Items

What a file or a module holds. Four kinds of items are looked into, because they are what is being
searched or decide where a name leads: enums, modules, `use` declarations and `extern crate`
declarations. All others are fragments.

`Item.mentions` answers which crates an item might refer to. It goes through every path of an item,
except that a `use` or `extern crate` declaration mentions the crate it imports from and nothing
else.
-/

set_option autoImplicit false

namespace EnumCatalog.Syntax

/-! ## 1. Enums -/

inductive Fields where
  | unit
  /-- Fields in parentheses. -/
  | unnamed (f : Fragment)
  /-- Fields in braces. -/
  | named (f : Fragment)
  deriving Inhabited

namespace Fields

def fragment : Fields → Fragment
  | .unit => .empty
  | .unnamed f => f
  | .named f => f

/-- Whether there are no fields, not even an empty list of them. -/
def isUnit : Fields → Bool
  | .unit => true
  | _ => false

end Fields

/-- A variant of an enum. A visibility that is written on it is not kept. -/
structure Variant where
  attrs : List Attribute
  ident : Ident
  fields : Fields
  discriminant : Option Fragment
  deriving Inhabited

def Variant.fragment (v : Variant) : Fragment :=
  .concat (v.attrs.map Attribute.fragment) ++ .plain [.ident v.ident] ++ v.fields.fragment ++
    match v.discriminant with
    | some d => .plain [.punct '=' false] ++ d
    | none => .empty

structure Enum where
  attrs : List Attribute
  vis : Visibility
  ident : Ident
  /-- The generic parameters with their brackets; empty if there are none. -/
  generics : Fragment
  /-- The `where` clause; empty if it has no predicate. -/
  whereClause : Fragment
  variants : List Variant
  /-- A comma follows the last variant. -/
  trailing : Bool
  deriving Inhabited

namespace Enum

/-- Whether the enum has generic parameters. -/
def isGeneric (e : Enum) : Bool := !e.generics.isEmpty

def fragment (e : Enum) : Fragment :=
  .concat (e.attrs.map Attribute.fragment) ++ e.vis.fragment ++
    .plain [.word "enum", .ident e.ident] ++ e.generics ++ e.whereClause ++
    (Fragment.commaSeparated e.trailing (e.variants.map Variant.fragment)).within .brace

end Enum

/-! ## 2. Imports -/

/-- The tree of a `use` declaration. -/
inductive UseTree where
  /-- `ident::rest` -/
  | path (ident : Ident) (rest : UseTree)
  | name (ident : Ident)
  /-- `ident as rename`; an underscore is a rename too. -/
  | rename (ident rename : Ident)
  | glob
  /-- Trees in braces; `trailing` if a comma follows the last. -/
  | group (trees : List UseTree) (trailing : Bool)
  deriving Inhabited

namespace UseTree

mutual

/-- The first names that a tree starts with. -/
def heads : UseTree → List String
  | .path i _ => [i.text]
  | .name i => [i.text]
  | .rename i _ => [i.text]
  | .glob => []
  | .group ts _ => headsAll ts

@[inherit_doc heads]
def headsAll : List UseTree → List String
  | [] => []
  | t :: ts => t.heads ++ headsAll ts

end

mutual

def tokens : UseTree → List Token
  | .path i rest => .ident i :: Token.operator [':', ':'] ++ tokens rest
  | .name i => [.ident i]
  | .rename i r => [.ident i, .word "as", .ident r]
  | .glob => [.punct '*' false]
  | .group ts trailing => [.brace (tokensAll trailing ts)]

def tokensAll (trailing : Bool) : List UseTree → List Token
  | [] => []
  | [t] => t.tokens ++ if trailing then [.punct ',' false] else []
  | t :: ts => t.tokens ++ .punct ',' false :: tokensAll trailing ts

end

end UseTree

/-- A `use` declaration. -/
structure Use where
  attrs : List Attribute
  vis : Visibility
  /-- A double colon stands in front. -/
  leading : Bool
  tree : UseTree
  deriving Inhabited

/-- An `extern crate` declaration. -/
structure ExternCrate where
  attrs : List Attribute
  vis : Visibility
  ident : Ident
  rename : Option Ident
  deriving Inhabited

/-! ## 3. Items -/

/-- What stands before the body of a module. Attributes at the start of the body count among those
of the module. -/
structure ModuleHead where
  attrs : List Attribute
  vis : Visibility
  isUnsafe : Bool
  ident : Ident
  deriving Inhabited

inductive Item where
  | enum (e : Enum)
  /-- A module whose items stand in a file of its own. -/
  | fileModule (head : ModuleHead)
  /-- A module with its items in braces. -/
  | inlineModule (head : ModuleHead) (items : List Item)
  | use (u : Use)
  | externCrate (x : ExternCrate)
  /-- Any other item. -/
  | other (f : Fragment)
  deriving Inhabited

/-- What a list of attributes prints as, those at the start of a body left out. -/
def outerAttributes (attrs : List Attribute) : Fragment :=
  .concat ((attrs.filter (!·.inner)).map Attribute.fragment)

/-- What the attributes at the start of a body print as. -/
def innerAttributes (attrs : List Attribute) : Fragment :=
  .concat ((attrs.filter (·.inner)).map Attribute.fragment)

/-- What stands before the body of a module, as it prints. -/
def ModuleHead.fragment (h : ModuleHead) : Fragment :=
  outerAttributes h.attrs ++ h.vis.fragment ++
    .plain ((if h.isUnsafe then [.word "unsafe"] else []) ++ [.word "mod", .ident h.ident])

/-- A `use` declaration as it prints. It mentions what its tree starts with. -/
def Use.fragment (u : Use) : Fragment :=
  ⟨(Fragment.concat (u.attrs.map Attribute.fragment) ++ u.vis.fragment).tokens ++
      .word "use" :: (if u.leading then Token.operator [':', ':'] else []) ++ u.tree.tokens ++
      [.punct ';' false],
    u.tree.heads⟩

/-- An `extern crate` declaration as it prints. It mentions its crate. -/
def ExternCrate.fragment (x : ExternCrate) : Fragment :=
  ⟨(Fragment.concat (x.attrs.map Attribute.fragment) ++ x.vis.fragment).tokens ++
      [.word "extern", .word "crate", .ident x.ident] ++
      (match x.rename with
        | some r => [.word "as", .ident r]
        | none => []) ++ [.punct ';' false],
    [x.ident.text]⟩

namespace Item

mutual

/-- An item as it prints, and what it mentions. -/
def fragment : Item → Fragment
  | .enum e => e.fragment
  | .fileModule h => h.fragment ++ .plain [.punct ';' false]
  | .inlineModule h items =>
    h.fragment ++ (innerAttributes h.attrs ++ fragmentAll items).within .brace
  | .use u => u.fragment
  | .externCrate x => x.fragment
  | .other f => f

def fragmentAll : List Item → Fragment
  | [] => .empty
  | i :: rest => i.fragment ++ fragmentAll rest

end

/-- The first names of the paths of an item. -/
def mentions (i : Item) : List String := i.fragment.mentions

end Item

/-- A source file. The attributes are those at its start. -/
structure SourceFile where
  attrs : List Attribute
  items : List Item
  deriving Inhabited

/-- The first names of the paths of a file. -/
def SourceFile.mentions (f : SourceFile) : List String :=
  (innerAttributes f.attrs ++ Item.fragmentAll f.items).mentions

end EnumCatalog.Syntax
