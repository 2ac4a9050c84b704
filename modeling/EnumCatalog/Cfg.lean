import EnumCatalog.Syntax.Source
import EnumCatalog.Text.Lowercase

/-!
# Conditional compilation

Whether an item is compiled, as its `cfg` attributes say. The options that decide it are not always
known, so a verdict has three values: yes, no, and *undecided*. The connectives are those of
three-valued logic: a `no` decides a conjunction whatever the rest is, and so on.

The work is split in two. `Predicate.ofMeta` reads the arguments of an attribute, which may be
malformed anywhere inside; a malformed part becomes `unclear`. `Options.eval` then goes over a
predicate and knows nothing of tokens.

Features are an option of their own kind. They are compared by the spelling in which a build passes
them on, so `some-feature` and `SOME_FEATURE` are the same (`featureKey`).
-/

set_option autoImplicit false

namespace EnumCatalog.Cfg

open Syntax (Attribute Meta)

/-! ## 1. Verdicts -/

/-- Yes, no, or undecided. -/
abbrev Verdict := Option Bool

namespace Verdict

def and : Verdict → Verdict → Verdict
  | some false, _ => some false
  | _, some false => some false
  | some true, some true => some true
  | _, _ => none

def or : Verdict → Verdict → Verdict
  | some true, _ => some true
  | _, some true => some true
  | some false, some false => some false
  | _, _ => none

def not (v : Verdict) : Verdict := v.map (!·)

def all (vs : List Verdict) : Verdict := vs.foldl and (some true)

def any (vs : List Verdict) : Verdict := vs.foldl or (some false)

end Verdict

/-! ## 2. Predicates -/

inductive Predicate where
  /-- An option by name. -/
  | option (name : String)
  /-- An option with a value. -/
  | optionValue (name value : String)
  | feature (name : String)
  | all (ps : List Predicate)
  | any (ps : List Predicate)
  | not (p : Predicate)
  /-- Something that is no predicate. -/
  | unclear
  deriving Inhabited

namespace Predicate

/-- Reads a predicate. The arguments of `all`, `any` and `not` are tokens within brackets, so each
level has fewer tokens than the one around it; `depth` bounds the levels. -/
def ofMetaWithin : Nat → Meta → Predicate
  | 0, _ => .unclear
  | depth + 1, m =>
    match m with
    | .path p =>
      match p.ident? with
      | some i => .option i.text
      | none => .unclear
    | .value p v =>
      match p.ident?, v.stringValue? with
      | some i, some value =>
        if i.text == "feature" then .feature value else .optionValue i.text value
      | _, _ => .unclear
    | .list p _ arguments =>
      match Meta.listOfTokens? arguments with
      | some ms =>
        if p.isWord "all" then .all (ms.map (ofMetaWithin depth))
        else if p.isWord "any" then .any (ms.map (ofMetaWithin depth))
        else if p.isWord "not" then
          match ms with
          | [m] => .not (ofMetaWithin depth m)
          | _ => .unclear
        else .unclear
      | none => .unclear

def ofMeta (m : Meta) : Predicate := ofMetaWithin (Token.sizeAll m.fragment.tokens + 1) m

/-- The predicate that an attribute asks for: one meta item between brackets. -/
def ofAttribute (a : Attribute) : Predicate :=
  match a.arguments?.bind Meta.ofTokens? with
  | some m => ofMeta m
  | none => .unclear

end Predicate

/-! ## 3. Options -/

/-- A feature as a build passes it on. -/
def featureKey (name : String) : String :=
  String.ofList ((Text.upperText name).toList.map fun c => if c == '-' then '_' else c)

/-- The options that a crate is compiled with. Unless they are `known`, an option that is missing
may still be set. -/
structure Options where
  known : Bool
  options : List (String × Option String)
  /-- The features by their keys. -/
  features : List String
  deriving Inhabited

namespace Options

/-- Options of which nothing is known. -/
def unknown : Options := ⟨false, [], []⟩

def none : Options := ⟨true, [], []⟩

def withOption (o : Options) (name : String) (value : Option String) : Options :=
  { o with options := (name, value) :: o.options }

def withFeature (o : Options) (name : String) : Options :=
  { o with features := featureKey name :: o.features }

/-- Whether the same options and features are set, and are known in both or in neither. -/
def same (a b : Options) : Bool :=
  let within {α : Type} [BEq α] (xs ys : List α) : Bool := xs.all ys.contains
  a.known == b.known && within a.options b.options && within b.options a.options &&
    within a.features b.features && within b.features a.features

/-- The text after an opening, if it opens with it. -/
def afterPrefix? (opening text : String) : Option String :=
  if opening.toList.isPrefixOf text.toList then
    some (String.ofList (text.toList.drop opening.length))
  else .none

/-- The values of an option that a text lists with commas between them; the empty text stands for no
value. -/
def valuesIn (text : String) : List (Option String) :=
  if text.isEmpty then [.none]
  else (text.toList.splitOn ',').map fun value => some (String.ofList value)

/-- What one variable of the environment of a build says. A variable per option holds its values
with commas between them, and nothing if the option has none; with the first such variable the
options are known. A variable per feature is named by the feature's key. -/
def withVariable (o : Options) (name value : String) : Options :=
  match afterPrefix? "CARGO_FEATURE_" name with
  | some feature => { o with features := feature :: o.features }
  | .none =>
    match afterPrefix? "CARGO_CFG_" name with
    | some option =>
      let option := Text.lowerText option
      { o with known := true, options := (valuesIn value).map (option, ·) ++ o.options }
    | .none => o

/-- The options that the environment of a build describes. -/
def ofEnvironment (vars : List (String × String)) : Options :=
  vars.foldl (fun o v => o.withVariable v.1 v.2) unknown

/-- The options that are not set in any build that matters: generated code is shared by tests and
documentation, so these count as not set. -/
def neverSet : List String := ["test", "doc", "doctest"]

def option (o : Options) (name : String) (value : Option String) : Verdict :=
  if value.isNone && neverSet.contains name then some false
  else if o.known then some (o.options.contains (name, value))
  else .none

def feature (o : Options) (name : String) : Verdict :=
  if o.known then some (o.features.contains (featureKey name)) else .none

mutual

def eval (o : Options) : Predicate → Verdict
  | .option name => o.option name .none
  | .optionValue name value => o.option name (some value)
  | .feature name => o.feature name
  | .all ps => Verdict.all (evalAll o ps)
  | .any ps => Verdict.any (evalAll o ps)
  | .not p => Verdict.not (eval o p)
  | .unclear => .none

def evalAll (o : Options) : List Predicate → List Verdict
  | [] => []
  | p :: ps => eval o p :: evalAll o ps

end

/-- Whether an item with these attributes is compiled: all its `cfg` attributes have to say so. -/
def enabled (o : Options) (attrs : List Attribute) : Verdict :=
  Verdict.all ((attrs.filter (·.name.isWord "cfg")).map fun a => o.eval (.ofAttribute a))

end Options

end EnumCatalog.Cfg
