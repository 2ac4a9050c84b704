import EnumCatalog.Proofs.Enums
import EnumCatalog.Proofs.Implementation
import EnumCatalog.Proofs.Members
import EnumCatalog.Proofs.Refusals

/-!
# What an expansion is read as

The tokens of an expansion are two items for the grammar, the enum and one implementation, and the
implementation is the one that is meant for the enum (`Expansion.emits_inverse_functions`).

A grammar of depth `n + 1` is the rules over the one of depth `n`, so each part says how much deeper
than any depth the grammar has to be that reads it.
-/

set_option autoImplicit false

namespace EnumCatalog

open Syntax (Fragment Item NamePath TypeShape Variant ClosedBy closedBy_punct)
open Syntax.Reader
open Syntax.Grammar
open Token (operator paren bracket brace)

namespace Expansion

variable (n : Nat) {rest : List Token}

/-! ## 1. Types -/

theorem answers_type_staticText (plus : Bool) (hrest : EndsType rest) :
    Answers ((ofDepth (n + 2)).type plus) (staticText ++ rest) rest .other := by
  have hstr : (Ident.plain "str").isName = true := by decide
  have htype := reads_anyType_name (ofDepth n) false (ofName _ hstr) hrest
  exact answers_anyType_lifetime (ofDepth (n + 1)) plus (.plain "static") rfl htype.answers

theorem answers_type_texts (plus : Bool) (rest : List Token) :
    Answers ((ofDepth (n + 4)).type plus)
      (mark '&' :: .lifetime (.plain "static") :: bracket staticText :: rest) rest .other := by
  have htext : Answers ((ofDepth (n + 2)).type true) (staticText ++ []) [] .other :=
    answers_type_staticText n true (endsType_of_closedBy trivial)
  rw [List.append_nil] at htext
  have hslice := answers_anyType_slice (ofDepth (n + 2)) false htext rest
  exact answers_anyType_lifetime (ofDepth (n + 3)) plus (.plain "static") rfl hslice

/-- The path of the type of optional values. -/
theorem isSegment_option : ∀ i ∈ [Ident.plain "core", .plain "option"], i.isSegment = true := by
  decide

theorem answers_type_optional (plus : Bool) {ts : List Token} {shape : TypeShape} (hne : ts ≠ [])
    (hopens : OpensArgument (ts ++ mark '>' :: rest))
    (h : Answers ((ofDepth n).type true) (ts ++ mark '>' :: rest) (mark '>' :: rest) shape)
    (hrest : EndsType rest) :
    Answers ((ofDepth (n + 1)).type plus) (optional ts ++ rest) rest (.path false false) := by
  have hoption : (Ident.plain "Option").isName = true := by decide
  have htokens : optional ts ++ rest = NamePath.rooted [.plain "core", .plain "option"] ++
      (NamePath.rooted [.plain "Option"] ++ mark '<' :: (ts ++ mark '>' :: rest)) := by
    simp [optional, rooted, NamePath.rooted, operator, mark]
  rw [htokens]
  exact answers_anyType_argument (ofDepth n) plus isSegment_option hoption hne hopens h hrest

theorem endsType_angle (rest : List Token) : EndsType (mark '>' :: rest) :=
  endsType_of_closedBy (closedBy_punct (by decide) false rest)

theorem answers_type_optionalText (plus : Bool) (hrest : EndsType rest) :
    Answers ((ofDepth (n + 3)).type plus) (optional staticText ++ rest) rest (.path false false) :=
  answers_type_optional (n + 2) plus (List.cons_ne_nil _ _) ⟨rfl, rfl, rfl, rfl⟩
    (answers_type_staticText n true (endsType_angle rest)) hrest

theorem answers_type_optionalSelf (plus : Bool) (hrest : EndsType rest) :
    Answers ((ofDepth (n + 2)).type plus) (optional [.word "Self"] ++ rest) rest
      (.path false false) := by
  have hself : ∀ i ∈ [Ident.plain "Self"], i.isSegment = true := by decide
  have htype := reads_anyType_name (ofDepth n) true ⟨false, .plain "Self", [], hself⟩
    (endsType_angle rest)
  exact answers_type_optional (n + 1) plus (List.cons_ne_nil _ _) ⟨rfl, rfl, rfl, rfl⟩
    htype.answers hrest

/-! ## 2. Values -/

/-- A variant of the type itself, as a path. -/
def selfPath (v : Variant) (hv : v.ident.isName = true) : NamePath where
  leading := false
  first := .plain "Self"
  others := [v.ident]
  isSegment := by
    intro i hi
    rcases List.mem_cons.mp hi with rfl | hi
    · decide
    · rw [List.mem_singleton.mp hi, Ident.isSegment_of_isName hv]

/-- A constructor of optional values, as a path. -/
def optionPath (i : Ident) (hi : i.isName = true) : NamePath where
  leading := true
  first := .plain "core"
  others := [.plain "option", .plain "Option", i]
  isSegment := by
    intro j hj
    simp only [List.mem_cons, List.not_mem_nil, or_false] at hj
    rcases hj with rfl | rfl | rfl | rfl
    · decide
    · decide
    · decide
    · exact Ident.isSegment_of_isName hi

theorem answers_value_literals (names : List String) (hrest : ClosedBy closers rest) :
    Answers (ofDepth (n + 5)).value (mark '&' :: bracket (literals names) :: rest) rest () := by
  have hliterals : Answers (ofDepth (n + 2)).array (bracket (literals names) :: rest) rest () :=
    (ofDepth (n + 2)).answers_array (fun name _ rest hrest =>
      (reads_value_literal (ofDepth n) _ (hrest.mono (by decide))).answers) rest
  exact (ofDepth (n + 2)).answers_value_array hliterals hrest

theorem reads_value_self {v : Variant} (hv : v.ident.isName = true) :
    Reads (ofDepth (n + 2)).value (variantPath v) [] () (selfPath v hv).fragment := by
  have hvalue : Reads (ofDepth (n + 2)).value ((selfPath v hv).tokens ++ []) [] () _ :=
    reads_value_path (ofDepth n) (selfPath v hv) rfl trivial
  rwa [List.append_nil] at hvalue

theorem answers_value_presentText (text : String) (hrest : ClosedBy closers rest) :
    Answers (ofDepth (n + 4)).value (present [.literal text] ++ rest) rest () := by
  have hsome : (Ident.plain "Some").isName = true := by decide
  have htext : CommaList (ofDepth (n + 2)).value [.literal text] [((), false)] _ :=
    .last (List.cons_ne_nil _ _) (reads_value_literal (ofDepth n) text trivial)
  have hcall := reads_anyUnary_call (ofDepth (n + 2)) (optionPath _ hsome) rfl htext hrest
  exact (reads_value_operand (ofDepth (n + 2)) hcall (endsExpr_of_closedBy hrest)).answers

/-! ## 3. Arms -/

theorem reads_early_literal (text : String) (hrest : ClosedBy closers rest) :
    Reads (ofDepth (n + 2)).early (.literal text :: rest) rest .other
      (.plain [.literal text] ++ .empty) := by
  have hends := endsExpr_of_closedBy hrest
  have hunary := reads_anyUnary (ofDepth n) true (opensOperand_literal text rest)
    (reads_atom_literal (ofDepth n) true text rest) (hends.reads_trailers (ofDepth n))
  exact reads_early (ofDepth n) ⟨rfl, fun _ => rfl, fun _ _ => rfl⟩ hunary hends

/-- What opens with double colons is no block. -/
theorem opensEarly_optionPath {i : Ident} (hi : i.isName = true) (ts : List Token) :
    OpensEarly ((optionPath i hi).tokens ++ ts) := ⟨rfl, fun _ => rfl, fun _ _ => rfl⟩

theorem answers_early_absent (hrest : ClosedBy closers rest) :
    Answers (ofDepth (n + 2)).early (absent ++ rest) rest .other := by
  have hnone : (Ident.plain "None").isName = true := by decide
  have hends := endsExpr_of_closedBy hrest
  have hunary := reads_anyUnary_path (ofDepth n) (optionPath _ hnone) true rfl
    (endsPath_of_closedBy true hrest) hends
  exact (reads_early (ofDepth n) (opensEarly_optionPath hnone rest) hunary hends).answers

theorem answers_early_present {v : Variant} (hv : v.ident.isName = true)
    (hrest : ClosedBy closers rest) :
    Answers (ofDepth (n + 4)).early (present (variantPath v) ++ rest) rest .other := by
  have hsome : (Ident.plain "Some").isName = true := by decide
  have hvariant : CommaList (ofDepth (n + 2)).value (variantPath v) [((), false)] _ :=
    .last (List.cons_ne_nil _ _) (reads_value_self n hv)
  have hcall := reads_anyUnary_call (ofDepth (n + 2)) (optionPath _ hsome) rfl hvariant hrest
  exact (reads_early (ofDepth (n + 2)) (opensEarly_optionPath hsome _) hcall
    (endsExpr_of_closedBy hrest)).answers

/-- An arm is read if its pattern is, in front of an arrow, and its value, in front of a comma. -/
theorem answers_arm_of {g : Syntax.Grammar} {pattern value : List Token}
    {shape : Syntax.PatternShape} {f : Fragment}
    (hsign : ∀ rest, Syntax.atOp "#" (pattern ++ rest) = false)
    (hopens : ∀ rest, Syntax.atOp "|" (pattern ++ rest) = false)
    (hpattern : ∀ rest, EndsPattern rest → Reads g.pattern (pattern ++ rest) rest shape f)
    (hvalue : ∀ rest, ClosedBy closers rest → Answers g.early (value ++ rest) rest .other)
    (rest : List Token) : Answers g.arm (arm pattern value ++ rest) rest () := by
  have hvalueEnd := closedBy_punct (by decide : ',' ∈ closers) false rest
  obtain ⟨f', hvalue⟩ := hvalue _ hvalueEnd
  have harrow : EndsPattern (.punct '=' true :: .punct '>' false :: (value ++ mark ',' :: rest)) :=
    ⟨false, _, rfl⟩
  have htokens : arm pattern value ++ rest =
      pattern ++ .punct '=' true :: .punct '>' false :: (value ++ mark ',' :: rest) := by
    simp [arm, operator, mark]
  rw [htokens]
  exact answers_arm g (hsign _) (reads_patterns g (hopens _) (hpattern _ harrow) harrow) hvalue

theorem answers_nameArm {v : Variant} (hv : v.ident.isName = true) (rest : List Token) :
    Answers (ofDepth (n + 2)).arm (arm (variantPath v) [nameLiteral v.ident.name] ++ rest) rest () :=
  answers_arm_of (fun _ => rfl) (fun _ => rfl)
    (fun _ hrest => reads_anyPattern_path (ofDepth (n + 1)) (selfPath v hv) hrest rfl)
    (fun _ hrest => (reads_early_literal n _ hrest).answers) rest

theorem answers_variantArm_text {v : Variant} (hv : v.ident.isName = true) (rest : List Token) :
    Answers (ofDepth (n + 4)).arm
      (arm [nameLiteral v.ident.name] (present (variantPath v)) ++ rest) rest () :=
  answers_arm_of (fun _ => rfl) (fun _ => rfl)
    (fun _ hrest => reads_anyPattern_literal (ofDepth (n + 3)) _ hrest)
    (fun _ hrest => answers_early_present n hv hrest) rest

theorem answers_variantArm_anything (rest : List Token) :
    Answers (ofDepth (n + 2)).arm (arm [.underscore] absent ++ rest) rest () :=
  answers_arm_of (fun _ => rfl) (fun _ => rfl)
    (fun _ hrest => reads_anyPattern_underscore (ofDepth (n + 1)) hrest)
    (fun _ hrest => answers_early_absent n hrest) rest

/-! ## 4. Functions -/

variable (x : Expansion)

/-- All variants are called what can be a name. -/
def HasNames : Prop := ∀ v ∈ x.enum.variants, v.ident.isName = true

variable {x}

theorem HasNames.answers_nameArms (h : x.HasNames) :
    ∃ arms, Answers (untilEnd (ofDepth (n + 2)).arm)
      (x.enum.variants.map fun v => arm (variantPath v) [nameLiteral v.ident.name]).flatten []
      arms := by
  rw [← List.flatMap_def]
  exact ⟨_, answers_untilEnd (fun v _ => List.cons_ne_nil _ _)
    fun v hv rest => answers_nameArm n (h v hv) rest⟩

theorem HasNames.answers_variantArms (h : x.HasNames) :
    ∃ arms, Answers (untilEnd (ofDepth (n + 4)).arm)
      ((x.enum.variants.map fun v => arm [nameLiteral v.ident.name] (present (variantPath v))) ++
        [arm [.underscore] absent]).flatten [] arms := by
  have harm : ∀ v? ∈ x.enum.variants.map some ++ [none], ∀ rest, Answers (ofDepth (n + 4)).arm
      (variantArmTokens v? ++ [mark ','] ++ rest) rest () := by
    intro v? hmem rest
    cases v? with
    | some v =>
      have hv : v ∈ x.enum.variants := by simpa using hmem
      exact answers_variantArm_text n (h v hv) rest
    | none => exact answers_variantArm_anything (n + 2) rest
  rw [flatten_variantArms]
  refine ⟨_, answers_untilEnd (fun v? _ => ?_) harm⟩
  exact List.append_ne_nil_of_right_ne_nil _ (List.cons_ne_nil _ _)

/-- A block of one case distinction. -/
theorem answers_statements_cases {subject : List Token} {arms : List (List Token)} {as : List Unit}
    (hsubject : Answers ((ofDepth n).expr false) (subject ++ [brace arms.flatten])
      [brace arms.flatten] .other)
    (hsign : Syntax.atOp "#" arms.flatten = false)
    (harms : Answers (untilEnd (ofDepth n).arm) arms.flatten [] as) :
    Answers (ofDepth (n + 2)).statements (cases subject arms) [] () :=
  answers_statements_match (ofDepth n) (answers_matching (ofDepth n) hsubject hsign harms)

/-- What a function is called on, as a path. -/
def receiverPath : NamePath where
  leading := false
  first := .plain "self"
  others := []
  isSegment := by decide

theorem answers_subject_self (inner rest : List Token) :
    Answers ((ofDepth (n + 3)).expr false) ([mark '*', .word "self"] ++ brace inner :: rest)
      (brace inner :: rest) .other := by
  have hends := endsExpr_brace inner rest
  have hoperand := reads_anyUnary_path (ofDepth n) receiverPath false rfl (endsPath_brace inner rest)
    hends
  have hstar := reads_anyUnary_sign (ofDepth (n + 1)) false false
    (by decide : '*' ∈ prefixSigns) hoperand
  exact (reads_anyExpr (ofDepth (n + 1)) false hstar hends).answers

theorem answers_subject_name (inner rest : List Token) :
    Answers ((ofDepth (n + 2)).expr false) ([.word "name"] ++ brace inner :: rest)
      (brace inner :: rest) .other := by
  have hname : (Ident.plain "name").isName = true := by decide
  have hends := endsExpr_brace inner rest
  have hoperand := reads_anyUnary_path (ofDepth n) (ofName _ hname) false rfl
    (endsPath_brace inner rest) hends
  exact (reads_anyExpr (ofDepth n) false hoperand hends).answers

theorem answers_function (g : Syntax.Grammar) {name : Ident} (hname : name.isName = true)
    {parameters result body : List Token} {shape : TypeShape}
    (hparameters : ∀ rest, Answers g.params (paren parameters :: rest) rest ())
    (hresult : ∀ rest, EndsType rest → Answers (g.type true) (result ++ rest) rest shape)
    (hsign : Syntax.atOp "#" body = false) (hbody : Answers g.statements body [] ())
    (rest : List Token) :
    Answers g.implMember (function name parameters result body ++ rest) rest () := by
  have htokens : function name parameters result body ++ rest = .word "fn" :: .ident name ::
      paren parameters :: .punct '-' true :: .punct '>' false :: (result ++ brace body :: rest) := by
    simp [function, operator]
  obtain ⟨f, hparameters⟩ := hparameters (.punct '-' true :: .punct '>' false ::
    (result ++ brace body :: rest))
  obtain ⟨f', hresult⟩ := hresult (brace body :: rest) (endsType_brace body rest)
  have hsignature := g.reads_signature hname (g.reads_generics_none rfl) hparameters
    (g.reads_returnType_some true false hresult) rfl
  rw [htokens]
  exact g.answers_implMember_function hsignature.answers hsign hbody

theorem answers_constant (g : Syntax.Grammar) {name : Ident} (hname : name.isName = true)
    {type value : List Token} {shape : TypeShape}
    (htype : ∀ rest, EndsType rest → Answers (g.type true) (type ++ rest) rest shape)
    (hvalue : ∀ rest, ClosedBy closers rest → Answers g.value (value ++ rest) rest ())
    (rest : List Token) :
    Answers g.implMember (constant name type value ++ rest) rest () := by
  have htokens : constant name type value ++ rest = .word "const" :: .ident name :: mark ':' ::
      (type ++ mark '=' :: (value ++ mark ';' :: rest)) := by
    simp [constant, mark]
  have hequals : EndsType (mark '=' :: (value ++ mark ';' :: rest)) :=
    ⟨NamePath.Ends.punct (by decide) (by decide) false _, rfl, rfl, rfl⟩
  rw [htokens]
  exact g.answers_implMember_const (not_atSignature_const hname _)
    (g.answers_constAfter hname (htype _ hequals) (hvalue _ (closedBy_punct (by decide) false rest)))

/-! ## 5. The implementation -/

theorem answers_rustName (rest : List Token) : Answers (ofDepth (n + 2)).implMember
    (constant (.plain "RUST_NAME") staticText [nameLiteral x.enum.ident.name] ++ rest) rest () := by
  have hvalue : ∀ rest, ClosedBy closers rest → Answers (ofDepth (n + 2)).value
      ([nameLiteral x.enum.ident.name] ++ rest) rest () :=
    fun rest hrest => (reads_value_literal (ofDepth n) (Text.quoted _) hrest).answers
  exact answers_constant (ofDepth (n + 2)) (by decide)
    (fun rest hrest => answers_type_staticText n true hrest) hvalue rest

theorem answers_variants (rest : List Token) : Answers (ofDepth (n + 5)).implMember
    (constant (.plain "VARIANTS") [mark '&', .lifetime (.plain "static"), bracket staticText]
      [mark '&', bracket (literals x.variantNames)] ++ rest) rest () := by
  have htype : ∀ rest, EndsType rest → Answers ((ofDepth (n + 5)).type true)
      ([mark '&', .lifetime (.plain "static"), bracket staticText] ++ rest) rest .other :=
    fun rest _ => answers_type_texts (n + 1) true rest
  have hvalue : ∀ rest, ClosedBy closers rest → Answers (ofDepth (n + 5)).value
      ([mark '&', bracket (literals x.variantNames)] ++ rest) rest () :=
    fun rest hrest => answers_value_literals n x.variantNames hrest
  exact answers_constant (ofDepth (n + 5)) (by decide) htype hvalue rest

theorem answers_alias (text : String) (rest : List Token) : Answers (ofDepth (n + 4)).implMember
    (constant aliasConstant (optional staticText) (present [.literal text]) ++ rest) rest () :=
  answers_constant (ofDepth (n + 4)) (by decide)
    (fun _ hrest => answers_type_optionalText (n + 1) true hrest)
    (fun _ hrest => answers_value_presentText n text hrest) rest

theorem HasNames.answers_nameFunction (h : x.HasNames) (rest : List Token) :
    Answers (ofDepth (n + 5)).implMember (x.nameTokens ++ rest) rest () := by
  obtain ⟨arms, harms⟩ := h.answers_nameArms (n + 1)
  have hbody : Answers (ofDepth (n + 5)).statements
      (cases [mark '*', .word "self"] (x.enum.variants.map fun v =>
        arm (variantPath v) [nameLiteral v.ident.name])) [] () := by
    refine answers_statements_cases (n + 3) (answers_subject_self n _ []) ?_ harms
    cases x.enum.variants <;> rfl
  exact answers_function (ofDepth (n + 5)) (by decide) (ofDepth (n + 5)).answers_params_self
    (fun rest hrest => answers_type_staticText (n + 3) true hrest) rfl hbody rest

theorem HasNames.answers_variantFunction (h : x.HasNames) (rest : List Token) :
    Answers (ofDepth (n + 6)).implMember (x.variantTokens ++ rest) rest () := by
  obtain ⟨arms, harms⟩ := h.answers_variantArms n
  have hbody : Answers (ofDepth (n + 6)).statements
      (cases [.word "name"] ((x.enum.variants.map fun v =>
        arm [nameLiteral v.ident.name] (present (variantPath v))) ++ [arm [.underscore] absent]))
      [] () := by
    refine answers_statements_cases (n + 4) (answers_subject_name (n + 2) _ []) ?_ harms
    cases x.enum.variants <;> rfl
  have hstr : (Ident.plain "str").isName = true := by decide
  have hend : EndsType [] := endsType_of_closedBy trivial
  have htext := reads_anyType_name (ofDepth (n + 4)) false (ofName _ hstr) hend
  have hparameters : ∀ rest, Answers (ofDepth (n + 6)).params
      (paren [.word "name", mark ':', mark '&', .word "str"] :: rest) rest () :=
    (ofDepth (n + 5)).answers_params_single (by decide) rfl
      (answers_anyType_reference (ofDepth (n + 5)) true rfl rfl htext.answers)
  exact answers_function (ofDepth (n + 6)) (by decide) hparameters
    (fun rest hrest => answers_type_optionalSelf (n + 4) true hrest) rfl hbody rest

/-- The members of the implementation, each for itself. -/
def memberTokens (x : Expansion) : List (List Token) :=
  [constant (.plain "RUST_NAME") staticText [nameLiteral x.enum.ident.name],
    constant (.plain "VARIANTS") [mark '&', .lifetime (.plain "static"), bracket staticText]
      [mark '&', bracket (literals x.variantNames)]] ++
    (x.aliasName.map fun text =>
      constant aliasConstant (optional staticText) (present [.literal text])).toList ++
    [x.nameTokens, x.variantTokens]

theorem body_eq_flatMap (x : Expansion) : x.body = x.memberTokens.flatMap id := by
  rw [body_eq, plainConstants, memberTokens, List.flatMap_append, List.flatMap_append]
  cases halias : x.aliasName with
  | none => simp [aliasTokens, halias]
  | some text => simp [aliasTokens, halias]

theorem HasNames.answers_member (h : x.HasNames) : ∀ ts ∈ x.memberTokens, ∀ rest,
    Answers (ofDepth (n + 6)).implMember (ts ++ rest) rest () := by
  unfold memberTokens
  refine List.forall_mem_append.mpr ⟨List.forall_mem_append.mpr ⟨?_, ?_⟩, ?_⟩
  · exact List.forall_mem_cons.mpr ⟨answers_rustName (n + 4),
      List.forall_mem_singleton.mpr (answers_variants (n + 1))⟩
  · cases x.aliasName with
    | none => exact fun ts hts => by cases hts
    | some text => exact List.forall_mem_singleton.mpr (answers_alias (n + 2) text)
  · exact List.forall_mem_cons.mpr ⟨h.answers_nameFunction (n + 1),
      List.forall_mem_singleton.mpr (h.answers_variantFunction n)⟩

theorem memberTokens_ne_nil : ∀ ts ∈ x.memberTokens, id ts ≠ [] := by
  unfold memberTokens
  refine List.forall_mem_append.mpr ⟨List.forall_mem_append.mpr ⟨?_, ?_⟩, ?_⟩
  · simp [constant]
  · cases x.aliasName <;> simp [constant]
  · simp [nameTokens, variantTokens, function]

theorem HasNames.answers_members (h : x.HasNames) :
    ∃ members, Answers (untilEnd (ofDepth (n + 6)).implMember) x.body [] members := by
  rw [body_eq_flatMap]
  exact ⟨_, answers_untilEnd memberTokens_ne_nil (h.answers_member n)⟩

/-- The implementation is an item that is not looked into. -/
theorem HasNames.answers_item (h : x.HasNames) (hident : x.enum.ident.isName = true) :
    ∃ f, Answers (ofDepth (n + 7)).item x.implementationTokens [] (.other f) := by
  obtain ⟨members, hmembers⟩ := h.answers_members n
  have hpath : ∀ i ∈ [Ident.plain "pgenum", .plain "PgEnum"], i.isSegment = true := by decide
  have htokens : x.implementationTokens = .word "impl" ::
      (NamePath.rooted [.plain "pgenum", .plain "PgEnum"] ++
        [.word "for", .ident x.enum.ident, brace x.body]) := rfl
  rw [htokens]
  exact (ofDepth (n + 6)).answers_anyItem_impl
    ((ofDepth (n + 5)).answers_implAfter hpath hident rfl hmembers [])

/-! ## 6. The expansion -/

theorem hasNames_of_wasRead (hread : x.enum.WasRead) : x.HasNames :=
  fun v hv => (hread.variants v hv).ident

theorem exists_item_of_wasRead (hread : x.enum.WasRead) :
    ∃ f, Item.ofTokens? x.implementationTokens = some (.other f) := by
  obtain ⟨f, hitem⟩ := (hasNames_of_wasRead hread).answers_item
    (8 * Token.sizeAll x.implementationTokens + 9) hread.ident
  exact ⟨f, hitem.run?⟩

/-- An enum that can be tagged has neither generic parameters nor fields. -/
theorem isPlain_of_ofTokens {args item : List Token} (h : ofTokens args item = .ok x) :
    x.enum.IsPlain := by
  obtain ⟨hargs, hitem, hgeneric⟩ := ofTokens_eq_ok h
  refine ⟨hgeneric, fun v hv => ?_⟩
  rw [ofTokens_of_arguments hargs hitem] at h
  have hunit : x.enum.variants.all (·.fields.isUnit) = true := by
    by_contra hfields
    simp [enumOf, hgeneric, hfields, Except.map] at h
  have hv := List.all_eq_true.mp hunit v hv
  cases hfields : v.fields with
  | unit => rfl
  | unnamed f => rw [hfields] at hv; cases hv
  | named f => rw [hfields] at hv; cases hv

/-- The string of an accepted tag. -/
theorem stringValue?_of_ofTokens {args item : List Token} (h : ofTokens args item = .ok x)
    (text : String) (htext : x.aliasName = some text) :
    ∃ value, Literal.stringValue? text = some value := by
  obtain ⟨hargs, -⟩ := ofTokens_eq_ok h
  obtain ⟨-, hnone⟩ | ⟨text', value, rest, hsome, hvalue, -⟩ := arguments_eq_ok hargs
  · rw [hnone] at htext
    cases htext
  · rw [hsome] at htext
    cases htext
    exact ⟨value, hvalue⟩

/-- The enum and the implementation are two items. -/
theorem exists_items_of_isReadBack (hread : x.enum.WasRead) (hplain : x.enum.IsPlain)
    (hback : x.enum.IsReadBack) :
    ∃ f, read? (fun g => untilEnd g.item) x.tokens = some [.enum x.enum, .other f] := by
  have hsize : enough x.enum.fragment.tokens ≤ 8 * Token.sizeAll x.tokens + 15 := by
    have himpl : 0 < Token.sizeAll x.implementationTokens := by
      show 0 < 1 + _
      omega
    unfold tokens enough
    rw [Token.sizeAll_append]
    omega
  -- The depth of the grammar is that of both items, which is enough for the enum alone.
  have henum : Reads (ofDepth (enough x.tokens)).item x.tokens x.implementationTokens
      (.enum x.enum) x.enum.fragment := (hback _ hsize).reads hread hplain x.implementationTokens
  obtain ⟨f, g, himpl⟩ := (hasNames_of_wasRead hread).answers_item
    (8 * Token.sizeAll x.tokens + 9) hread.ident
  have hlt : x.implementationTokens.length < x.tokens.length := by
    have hne : 0 < x.enum.fragment.tokens.length := by
      rw [Syntax.Enum.tokens_fragment (Syntax.Enum.generics_of_isPlain hplain hread)]
      exact List.length_pos_iff.mpr (by simp)
    unfold tokens
    rw [List.length_append]
    omega
  have himplLt : ([] : List Token).length < x.implementationTokens.length :=
    List.length_pos_iff.mpr (List.cons_ne_nil _ _)
  have hitems := collects_untilEnd_cons hlt henum
    (collects_untilEnd_cons himplLt himpl (collects_untilEnd_nil _))
  exact ⟨f, hitems.reads.run?⟩

end Expansion

end EnumCatalog
