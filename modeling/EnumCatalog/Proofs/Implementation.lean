import EnumCatalog.Proofs.Tagging
import Mathlib.Data.List.Nodup

/-!
# What an implementation means

The implementation that an expansion writes behind an enum is code, and what matters is what it does.
Here it is read again (`Implementation.read`), into its constants and the arms of its two functions,
and the functions are evaluated on what was read: the first arm that matches decides. Between the
variants of an enum and their names the two are inverse to each other, as long as no two variants have
one name when raw marks are left out (`Implementation.IsFor.inverts`).

The reader takes this one form of implementation and no other.
-/

set_option autoImplicit false

namespace EnumCatalog

open Syntax (Enum Fragment Item Reader Variant)

/-! ## 1. Reading an implementation -/

/-- What a text is compared with. -/
inductive TextPattern where
  | text (value : String)
  | anything
  deriving DecidableEq, Repr

/-- An implementation of the interface through which an enum is registered. -/
structure Implementation where
  /-- The enum that it is for. -/
  type : Ident
  rustName : String
  variants : List String
  aliasName : Option String
  /-- The arms of the function from variants to names. -/
  nameArms : List (Ident × String)
  /-- The arms of the function from names to variants. -/
  variantArms : List (TextPattern × Option Ident)

namespace Implementation

open Syntax.Reader

/-- Reads a string literal. -/
def readText : Reader String := do
  let (_, f) ← captured literal
  match f.stringValue? with
  | some value => return value
  | none => failure

/-- Reads names with a double colon before each. -/
def readRooted : List String → Reader Unit
  | [] => return ()
  | name :: names => do
    op "::"
    word name
    readRooted names

def readStatic : Reader Unit := do
  match ← next with
  | .lifetime i => require (i.isWord "static")
  | _ => failure

/-- Reads the type of a text that lives as long as the program. -/
def readStaticText : Reader Unit := do
  op "&"
  readStatic
  word "str"

/-- Reads the type of an optional value. -/
def readOptional (type : Reader Unit) : Reader Unit := do
  readRooted ["core", "option", "Option"]
  op "<"
  type
  op ">"

/-- Reads an optional value. -/
def readValue {α : Type} (value : Reader α) : Reader (Option α) := do
  readRooted ["core", "option", "Option"]
  op "::"
  if ← word? "None" then return none
  else
    word "Some"
    some <$> inGroup .paren value

def readConstant {α : Type} (name : String) (type : Reader Unit) (value : Reader α) :
    Reader α := do
  word "const"
  word name
  op ":"
  type
  op "="
  let a ← value
  op ";"
  return a

def readFunction {α : Type} (name : String) (parameters result : Reader Unit) (body : Reader α) :
    Reader α := do
  word "fn"
  word name
  inGroup .paren parameters
  op "->"
  result
  inGroup .brace body

def readCases {α : Type} (subject : Reader Unit) (arm : Reader α) : Reader (List α) := do
  word "match"
  subject
  inGroup .brace (Prod.fst <$> commaList arm)

/-- Reads a variant of the type itself. -/
def readVariant : Reader Ident := do
  word "Self"
  op "::"
  anyIdent

/-- Reads an arm from a variant to its name. -/
def readNameArm : Reader (Ident × String) := do
  let i ← readVariant
  op "=>"
  return (i, ← readText)

def readPattern : Reader TextPattern := do
  if ← word? "_" then return .anything else return .text (← readText)

/-- Reads an arm from a text to a variant. -/
def readVariantArm : Reader (TextPattern × Option Ident) := do
  let p ← readPattern
  op "=>"
  return (p, ← readValue readVariant)

/-- Reads the constant for the database name, if it is there. -/
def readAlias : Reader (Option String) := do
  if ← sees (Syntax.atWord "const") then
    readConstant "PG_ALIAS" (readOptional readStaticText) (readValue readText)
  else return none

def readNames : Reader (List (Ident × String)) :=
  readFunction "variant_name" (do op "&"; word "self") readStaticText <|
    readCases (do op "*"; word "self") readNameArm

def readVariants : Reader (List (TextPattern × Option Ident)) :=
  readFunction "from_variant" (do word "name"; op ":"; op "&"; word "str")
    (readOptional (word "Self")) <| readCases (word "name") readVariantArm

/-- Reads an implementation of the interface. -/
def read : Reader Implementation := do
  word "impl"
  readRooted ["pgenum", "PgEnum"]
  word "for"
  let type ← anyIdent
  inGroup .brace do
    let rustName ← readConstant "RUST_NAME" readStaticText readText
    let variants ← readConstant "VARIANTS" (do op "&"; readStatic; inGroup .bracket readStaticText)
      (do op "&"; inGroup .bracket (Prod.fst <$> commaList readText))
    let aliasName ← readAlias
    return ⟨type, rustName, variants, aliasName, ← readNames, ← readVariants⟩

end Implementation

/-! ## 2. What was written is read -/

namespace Expansion

open Implementation Syntax.Reader
open Token (operator paren bracket brace)

theorem answers_readText {text value : String} (h : Literal.stringValue? text = some value)
    (rest : List Token) : Answers readText (.literal text :: rest) rest value := by
  refine (reads_literal text rest).captured.answers.bind ?_
  simp only [show Fragment.stringValue? (.plain [.literal text]) = some value from h]
  exact answers_pure value rest

theorem answers_readText_nameLiteral (name : String) (rest : List Token) :
    Answers readText (nameLiteral name :: rest) rest name :=
  answers_readText (Text.stringValue?_quoted name) rest

theorem answers_readRooted {names : List Ident} (h : ∀ i ∈ names, i.raw = false)
    (rest : List Token) : Answers (readRooted (names.map (·.name))) (rooted names ++ rest) rest () := by
  induction names with
  | nil => exact answers_pure () rest
  | cons i names ih =>
    have hword : i.isWord i.name = true := by simp [Ident.isWord, h i List.mem_cons_self]
    rw [show rooted (i :: names) ++ rest = .punct ':' true :: .punct ':' false :: .ident i ::
      (rooted names ++ rest) from rfl, List.map_cons]
    refine (reads_op rfl rfl).answers.bind ((reads_word hword _).answers.bind ?_)
    exact ih fun j hj => h j (List.mem_cons_of_mem _ hj)

theorem answers_readStatic (rest : List Token) :
    Answers readStatic (.lifetime (.plain "static") :: rest) rest () :=
  (reads_next _ rest).answers.bind (reads_require (by decide) rest).answers

theorem answers_readStaticText (rest : List Token) :
    Answers readStaticText (staticText ++ rest) rest () :=
  (reads_op rfl rfl).answers.bind ((answers_readStatic _).bind (reads_word rfl rest).answers)

section

variable {α : Type} {type parameters result subject : Reader Unit} {value body arm : Reader α}
  {ts us : List Token} {a : α} {name : Ident} {w : String}

theorem answers_option (rest : List Token) : Answers (readRooted ["core", "option", "Option"])
    (rooted [.plain "core", .plain "option", .plain "Option"] ++ rest) rest () := by
  have hplain : ∀ i ∈ [Ident.plain "core", .plain "option", .plain "Option"], i.raw = false := by
    simp [Ident.plain]
  exact answers_readRooted hplain rest

theorem answers_readOptional (htype : ∀ rest, Answers type (ts ++ rest) rest ())
    (rest : List Token) : Answers (readOptional type) (optional ts ++ rest) rest () := by
  unfold optional
  rw [List.append_assoc, List.append_assoc, List.cons_append]
  refine (answers_option _).bind ((reads_op rfl rfl).answers.bind ?_)
  exact (htype _).bind (reads_op rfl rfl).answers

theorem answers_readValue_present (hvalue : Answers value ts [] a) (rest : List Token) :
    Answers (readValue value) (present ts ++ rest) rest (some a) := by
  have htokens : present ts ++ rest = rooted [.plain "core", .plain "option", .plain "Option"] ++
      (.punct ':' true :: .punct ':' false :: .word "Some" :: paren ts :: rest) := rfl
  rw [htokens]
  refine (answers_option _).bind ((reads_op rfl rfl).answers.bind ?_)
  refine (reads_word?_of_not rfl).answers.bind ?_
  exact (reads_word rfl _).answers.bind (hvalue.inGroup .paren rest).map

theorem answers_readValue_absent (value : Reader α) (rest : List Token) :
    Answers (readValue value) (absent ++ rest) rest none := by
  have htokens : absent ++ rest = rooted [.plain "core", .plain "option", .plain "Option"] ++
      (.punct ':' true :: .punct ':' false :: .word "None" :: rest) := rfl
  rw [htokens]
  refine (answers_option _).bind ((reads_op rfl rfl).answers.bind ?_)
  exact (reads_word?_of_at rfl rest).answers.bind (answers_pure none rest)

theorem answers_readConstant (hname : name.isWord w = true)
    (htype : ∀ rest, Answers type (ts ++ rest) rest ())
    (hvalue : ∀ rest, Answers value (us ++ rest) rest a) (rest : List Token) :
    Answers (readConstant w type value) (constant name ts us ++ rest) rest a := by
  have htokens : constant name ts us ++ rest = .word "const" :: .ident name :: mark ':' ::
      (ts ++ mark '=' :: (us ++ mark ';' :: rest)) := by
    simp [constant, mark]
  rw [htokens]
  refine (reads_word rfl _).answers.bind ((reads_word hname _).answers.bind ?_)
  refine (reads_op rfl rfl).answers.bind ((htype _).bind ?_)
  refine (reads_op rfl rfl).answers.bind ((hvalue _).bind ?_)
  exact (reads_op rfl rfl).answers.bind (answers_pure a rest)

theorem answers_readFunction {inner : List Token} (hname : name.isWord w = true)
    (hparameters : Answers parameters ts [] ())
    (hresult : ∀ rest, Answers result (us ++ rest) rest ())
    (hbody : Answers body inner [] a) (rest : List Token) :
    Answers (readFunction w parameters result body) (function name ts us inner ++ rest) rest a := by
  have htokens : function name ts us inner ++ rest = .word "fn" :: .ident name :: paren ts ::
      .punct '-' true :: .punct '>' false :: (us ++ brace inner :: rest) := by
    simp [function, operator]
  rw [htokens]
  refine (reads_word rfl _).answers.bind ((reads_word hname _).answers.bind ?_)
  refine (hparameters.inGroup .paren _).bind ((reads_op rfl rfl).answers.bind ?_)
  exact (hresult _).bind (hbody.inGroup .brace rest)

theorem answers_readCases {arms : List (List Token)} {as : List α}
    (hsubject : ∀ rest, Answers subject (ts ++ rest) rest ())
    (harms : Answers (Prod.fst <$> commaList arm) arms.flatten [] as) :
    Answers (readCases subject arm) (cases ts arms) [] as := by
  unfold cases
  rw [List.cons_append]
  exact (reads_word rfl _).answers.bind ((hsubject _).bind (harms.inGroup .brace []))

end

/-! ## 3. The arms -/

theorem answers_readVariant (v : Variant) (rest : List Token) :
    Answers readVariant (variantPath v ++ rest) rest v.ident :=
  (reads_word rfl _).answers.bind
    ((reads_op rfl rfl).answers.bind (reads_anyIdent v.ident rest).answers)

theorem answers_readNameArm (v : Variant) (rest : List Token) :
    Answers readNameArm (variantPath v ++ operator ['=', '>'] ++ [nameLiteral v.ident.name] ++ rest)
      rest (v.ident, v.ident.name) := by
  rw [List.append_assoc, List.append_assoc]
  refine (answers_readVariant v _).bind ((reads_op rfl rfl).answers.bind ?_)
  exact (answers_readText_nameLiteral v.ident.name rest).bind (answers_pure _ rest)

theorem answers_readVariantArm_text (v : Variant) (rest : List Token) :
    Answers readVariantArm
      ([nameLiteral v.ident.name] ++ operator ['=', '>'] ++ present (variantPath v) ++ rest) rest
      (.text v.ident.name, some v.ident) := by
  have hpattern : Answers readPattern (nameLiteral v.ident.name ::
      (operator ['=', '>'] ++ (present (variantPath v) ++ rest)))
      (operator ['=', '>'] ++ (present (variantPath v) ++ rest)) (.text v.ident.name) :=
    (reads_word?_of_not rfl).answers.bind
      ((answers_readText_nameLiteral v.ident.name _).bind (answers_pure _ _))
  have hvariant : Answers readVariant (variantPath v) [] v.ident := by
    have h := answers_readVariant v []
    rwa [List.append_nil] at h
  rw [List.append_assoc, List.append_assoc]
  refine hpattern.bind ((reads_op rfl rfl).answers.bind ?_)
  exact (answers_readValue_present hvariant rest).bind (answers_pure _ rest)

theorem answers_readVariantArm_anything (rest : List Token) :
    Answers readVariantArm ([.underscore] ++ operator ['=', '>'] ++ absent ++ rest) rest
      (.anything, none) := by
  have hpattern : Answers readPattern ([.underscore] ++ operator ['=', '>'] ++ absent ++ rest)
      (operator ['=', '>'] ++ (absent ++ rest)) .anything :=
    (reads_word?_of_at rfl _).answers.bind (answers_pure _ _)
  refine hpattern.bind ((reads_op rfl rfl).answers.bind ?_)
  exact (answers_readValue_absent readVariant rest).bind (answers_pure _ rest)

theorem answers_nameArms (vs : List Variant) :
    Answers (Prod.fst <$> commaList readNameArm)
      (vs.map fun v => arm (variantPath v) [nameLiteral v.ident.name]).flatten []
      (vs.map fun v => (v.ident, v.ident.name)) := by
  rw [← List.flatMap_def]
  obtain ⟨as, f, hlist, hfst⟩ := exists_commaList_flatMap fun v (_ : v ∈ vs) rest =>
    answers_readNameArm v (.punct ',' false :: rest)
  exact hlist.answers hfst

/-- An arm from a text to a variant, or the last one. -/
def variantArm : Option Variant → TextPattern × Option Ident
  | some v => (.text v.ident.name, some v.ident)
  | none => (.anything, none)

/-- The tokens of such an arm up to its comma. -/
def variantArmTokens : Option Variant → List Token
  | some v => [nameLiteral v.ident.name] ++ operator ['=', '>'] ++ present (variantPath v)
  | none => [.underscore] ++ operator ['=', '>'] ++ absent

theorem flatten_variantArms (vs : List Variant) :
    ((vs.map fun v => arm [nameLiteral v.ident.name] (present (variantPath v))) ++
      [arm [.underscore] absent]).flatten =
        (vs.map some ++ [none]).flatMap fun v? => variantArmTokens v? ++ [mark ','] := by
  rw [List.flatMap_append, List.flatMap_map, List.flatten_append, ← List.flatMap_def]
  rfl

theorem answers_variantArms (vs : List Variant) :
    Answers (Prod.fst <$> commaList readVariantArm)
      ((vs.map fun v => arm [nameLiteral v.ident.name] (present (variantPath v))) ++
        [arm [.underscore] absent]).flatten []
      ((vs.map some ++ [none]).map variantArm) := by
  have harm : ∀ v? ∈ vs.map some ++ [none], ∀ rest, Answers readVariantArm
      (variantArmTokens v? ++ mark ',' :: rest) (mark ',' :: rest) (variantArm v?) := by
    intro v? _ rest
    cases v? with
    | some v => exact answers_readVariantArm_text v _
    | none => exact answers_readVariantArm_anything _
  obtain ⟨as, f, hlist, hfst⟩ := exists_commaList_flatMap harm
  rw [flatten_variantArms]
  exact hlist.answers hfst

/-! ## 4. The implementation -/

variable (x : Expansion)

/-- The implementation that an expansion writes. -/
def implementation : Implementation where
  type := x.enum.ident
  rustName := x.enum.ident.name
  variants := x.variantNames
  aliasName := x.aliasName.bind Literal.stringValue?
  nameArms := x.enum.variants.map fun v => (v.ident, v.ident.name)
  variantArms := (x.enum.variants.map some ++ [none]).map variantArm

theorem answers_readNames (rest : List Token) :
    Answers readNames (x.nameTokens ++ rest) rest x.implementation.nameArms := by
  have hparameters : Answers (do op "&"; word "self") [mark '&', .word "self"] [] () :=
    (reads_op rfl rfl).answers.bind (reads_word rfl []).answers
  have hsubject : ∀ rest, Answers (do op "*"; word "self") ([mark '*', .word "self"] ++ rest) rest () :=
    fun rest => (reads_op rfl rfl).answers.bind (reads_word rfl rest).answers
  exact answers_readFunction rfl hparameters answers_readStaticText
    (answers_readCases hsubject (answers_nameArms x.enum.variants)) rest

theorem answers_readVariants (rest : List Token) :
    Answers readVariants (x.variantTokens ++ rest) rest x.implementation.variantArms := by
  have hparameters : Answers (do word "name"; op ":"; op "&"; word "str")
      [.word "name", mark ':', mark '&', .word "str"] [] () :=
    (reads_word rfl _).answers.bind ((reads_op rfl rfl).answers.bind
      ((reads_op rfl rfl).answers.bind (reads_word rfl []).answers))
  have hresult : ∀ rest, Answers (readOptional (word "Self")) (optional [.word "Self"] ++ rest) rest () :=
    answers_readOptional fun rest => (reads_word rfl rest).answers
  have hsubject : ∀ rest, Answers (word "name") ([.word "name"] ++ rest) rest () :=
    fun rest => (reads_word rfl rest).answers
  exact answers_readFunction rfl hparameters hresult
    (answers_readCases hsubject (answers_variantArms x.enum.variants)) rest

theorem answers_readAlias {rest : List Token}
    (hstring : ∀ text, x.aliasName = some text → ∃ value, Literal.stringValue? text = some value)
    (hrest : Syntax.atWord "const" rest = false) :
    Answers readAlias (x.aliasTokens ++ rest) rest x.implementation.aliasName := by
  cases halias : x.aliasName with
  | none =>
    have htokens : x.aliasTokens = [] := by
      unfold aliasTokens
      rw [halias]
    have hvalue : x.implementation.aliasName = none := congrArg (·.bind Literal.stringValue?) halias
    rw [htokens, hvalue]
    refine (reads_sees _ _).answers.bind ?_
    rw [List.nil_append, hrest]
    exact answers_pure none rest
  | some text =>
    obtain ⟨value, hstring⟩ := hstring text halias
    have hvalue : x.implementation.aliasName = some value :=
      (congrArg (·.bind Literal.stringValue?) halias).trans hstring
    rw [aliasTokens_of_some halias, hvalue]
    refine (reads_sees _ _).answers.bind ?_
    exact answers_readConstant rfl (answers_readOptional answers_readStaticText)
      (answers_readValue_present (answers_readText hstring [])) rest

theorem answers_readRustName (rest : List Token) :
    Answers (readConstant "RUST_NAME" readStaticText readText)
      (constant (.plain "RUST_NAME") staticText [nameLiteral x.enum.ident.name] ++ rest) rest
      x.implementation.rustName :=
  answers_readConstant rfl answers_readStaticText
    (answers_readText_nameLiteral x.enum.ident.name) rest

theorem answers_readLiterals (rest : List Token) :
    Answers (readConstant "VARIANTS" (do op "&"; readStatic; inGroup .bracket readStaticText)
        (do op "&"; inGroup .bracket (Prod.fst <$> commaList readText)))
      (constant (.plain "VARIANTS") [mark '&', .lifetime (.plain "static"), bracket staticText]
        [mark '&', bracket (literals x.variantNames)] ++ rest) rest x.implementation.variants := by
  have hliterals : Answers (Prod.fst <$> commaList readText) (literals x.variantNames) []
      x.variantNames := by
    obtain ⟨as, f, hlist, hfst⟩ := exists_commaList_intercalate
      fun name (_ : name ∈ x.variantNames) rest _ => answers_readText_nameLiteral name rest
    rw [List.map_id'] at hfst
    exact hlist.answers hfst
  refine answers_readConstant rfl (fun rest => ?_) (fun rest => ?_) rest
  · refine (reads_op rfl rfl).answers.bind ((answers_readStatic _).bind ?_)
    exact (answers_readStaticText []).inGroup .bracket rest
  · exact (reads_op rfl rfl).answers.bind (hliterals.inGroup .bracket rest)

theorem answers_read
    (hstring : ∀ text, x.aliasName = some text → ∃ value, Literal.stringValue? text = some value) :
    Answers Implementation.read x.implementationTokens [] x.implementation := by
  have hpath : ∀ i ∈ [Ident.plain "pgenum", .plain "PgEnum"], i.raw = false := by
    simp [Ident.plain]
  have htokens : x.implementationTokens = .word "impl" ::
      (rooted [.plain "pgenum", .plain "PgEnum"] ++ (.word "for" :: .ident x.enum.ident ::
        brace x.body :: [])) := by
    simp [implementationTokens, body]
  have hvariants := x.answers_readVariants []
  rw [List.append_nil] at hvariants
  rw [htokens]
  refine (reads_word rfl _).answers.bind ((answers_readRooted hpath _).bind ?_)
  refine (reads_word rfl _).answers.bind ((reads_anyIdent _ _).answers.bind ?_)
  refine Answers.inGroup .brace ?_ []
  rw [body_eq, plainConstants, List.append_assoc, List.append_assoc]
  refine (x.answers_readRustName _).bind ((x.answers_readLiterals _).bind ?_)
  refine (x.answers_readAlias hstring rfl).bind ((x.answers_readNames _).bind ?_)
  exact hvariants.bind (answers_pure _ [])

end Expansion

/-! ## 5. What the functions do -/

/-- The variant that a name stands for. A raw mark makes no other name of it. -/
def Syntax.Enum.variant? (e : Enum) (i : Ident) : Option Variant :=
  e.variants.find? (·.ident.name == i.name)

/-- Whether a text matches. -/
def TextPattern.admits : TextPattern → String → Bool
  | .text value, s => value == s
  | .anything, _ => true

namespace Implementation

variable (m : Implementation)

/-- What the function from variants to names answers, if an arm matches. -/
def nameOf? (v : Variant) : Option String :=
  (m.nameArms.find? (·.1.name == v.ident.name)).map Prod.snd

/-- What the function from names to variants answers, if an arm matches and names a variant of the
enum: a variant, or none. -/
def variantOf? (e : Enum) (s : String) : Option (Option Variant) :=
  match m.variantArms.find? (·.1.admits s) with
  | some (_, some i) => (e.variant? i).map some
  | some (_, none) => some none
  | none => none

/-- The constants and the arms are those of an enum: all names are without raw marks and in the order
of the variants, and the arms name each variant as it is written. -/
structure IsFor (e : Enum) : Prop where
  type : m.type = e.ident
  rustName : m.rustName = e.ident.name
  variants : m.variants = e.variants.map (·.ident.name)
  nameArms : m.nameArms = e.variants.map fun v => (v.ident, v.ident.name)
  variantArms : m.variantArms =
    (e.variants.map fun v => (.text v.ident.name, some v.ident)) ++ [(.anything, none)]

/-- The two functions always answer, and each undoes the other. -/
structure Inverts (e : Enum) : Prop where
  nameOf : ∀ v ∈ e.variants, ∃ s, m.nameOf? v = some s ∧ m.variantOf? e s = some (some v)
  variantOf : ∀ s v, m.variantOf? e s = some (some v) → v ∈ e.variants ∧ m.nameOf? v = some s
  total : ∀ s, (m.variantOf? e s).isSome = true

variable {m : Implementation} {e : Enum}

theorem IsFor.nameOf? (h : m.IsFor e) {v : Variant} (hv : v ∈ e.variants) :
    m.nameOf? v = some v.ident.name := by
  have hfind : ∃ arm, m.nameArms.find? (·.1.name == v.ident.name) = some arm := by
    rw [← Option.isSome_iff_exists, List.find?_isSome, h.nameArms]
    exact ⟨_, List.mem_map_of_mem hv, by simp⟩
  obtain ⟨arm, harm⟩ := hfind
  have hmem := List.mem_of_find?_eq_some harm
  have hname := List.find?_some harm
  rw [h.nameArms] at hmem
  obtain ⟨v', -, rfl⟩ := List.mem_map.mp hmem
  unfold Implementation.nameOf?
  rw [harm, Option.map_some]
  exact congrArg some (beq_iff_eq.mp hname)

theorem mem_of_find?_name {s : String} {v : Variant}
    (h : e.variants.find? (·.ident.name == s) = some v) : v ∈ e.variants ∧ v.ident.name = s :=
  ⟨List.mem_of_find?_eq_some h, by simpa using List.find?_some h⟩

/-- The arms for texts find the first variant of a name. -/
theorem IsFor.variantOf? (h : m.IsFor e) (s : String) :
    m.variantOf? e s = some (e.variants.find? (·.ident.name == s)) := by
  have harms : m.variantArms.find? (·.1.admits s) =
      ((e.variants.find? (·.ident.name == s)).map fun v => (.text v.ident.name, some v.ident)).or
        (some (.anything, none)) := by
    rw [h.variantArms, List.find?_append, List.find?_map]
    rfl
  unfold Implementation.variantOf?
  rw [harms]
  cases hfind : e.variants.find? (·.ident.name == s) with
  | none => rfl
  | some v =>
    obtain ⟨-, hname⟩ := mem_of_find?_name hfind
    have hvariant : e.variant? v.ident = some v := by
      unfold Enum.variant?
      rw [hname, hfind]
    show (e.variant? v.ident).map some = some (some v)
    rw [hvariant]
    rfl

/-- Of variants without a common name each is the one of its name. -/
theorem find?_name_of_nodup (hnames : (e.variants.map (·.ident.name)).Nodup) {v : Variant}
    (hv : v ∈ e.variants) : e.variants.find? (·.ident.name == v.ident.name) = some v := by
  have hsome : ∃ v', e.variants.find? (·.ident.name == v.ident.name) = some v' := by
    rw [← Option.isSome_iff_exists, List.find?_isSome]
    exact ⟨v, hv, beq_self_eq_true _⟩
  obtain ⟨v', hfind⟩ := hsome
  obtain ⟨hv', hname⟩ := mem_of_find?_name hfind
  rw [hfind, List.inj_on_of_nodup_map hnames hv' hv hname]

/-- The first arm that matches is the only one, so each function undoes the other. -/
theorem IsFor.inverts (h : m.IsFor e) (hnames : (e.variants.map (·.ident.name)).Nodup) :
    m.Inverts e where
  nameOf v hv := by
    refine ⟨v.ident.name, h.nameOf? hv, ?_⟩
    rw [h.variantOf?, find?_name_of_nodup hnames hv]
  variantOf s v hs := by
    rw [h.variantOf?] at hs
    obtain ⟨hv, hname⟩ := mem_of_find?_name (Option.some.inj hs)
    exact ⟨hv, by rw [h.nameOf? hv, hname]⟩
  total s := by
    rw [h.variantOf?]
    rfl

end Implementation

theorem Expansion.isFor_implementation (x : Expansion) : x.implementation.IsFor x.enum where
  type := rfl
  rustName := rfl
  variants := rfl
  nameArms := rfl
  variantArms := by
    show (x.enum.variants.map some ++ [none]).map variantArm = _
    rw [List.map_append, List.map_map]
    rfl

end EnumCatalog
