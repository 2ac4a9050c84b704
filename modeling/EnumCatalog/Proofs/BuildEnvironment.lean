import EnumCatalog.Proofs.Predicate

/-!
# Options from the environment of a build

A build describes the options of a crate in variables: one for each option name, which holds the
values of the option, and one for each feature (`Describes`). The variables may come in any order
and among others. Read back, they say of every attribute what the options and features themselves
say, if three things hold of the options (`Options.enabled_ofEnvironment`): the names survive being
put into uppercase and back; no name is set both with a value and without one, unless it is one that
counts as never set by itself; and where a name has the empty value, it has another one, too.

Without the last condition this is false, and no reading could make it true: an option whose one
value is empty has the variable of an option without a value (`not_enabled_ofEnvironment`).
-/

set_option autoImplicit false

namespace EnumCatalog.Cfg

open Syntax (Attribute)

namespace Options

/-! ## 1. What a variable says -/

theorem afterPrefix?_eq_some_iff {opening text rest : String} :
    afterPrefix? opening text = some rest ↔ text = opening ++ rest := by
  rw [afterPrefix?, Option.ite_none_right_eq_some, List.isPrefixOf_iff_prefix,
    Option.some.injEq, ← String.toList_inj, ← String.toList_inj, String.toList_append,
    String.toList_ofList]
  constructor
  · rintro ⟨⟨ts, hts⟩, hdrop⟩
    rw [← hts, ← hdrop, ← hts, ← String.length_toList, List.drop_left]
  · intro h
    rw [h, ← String.length_toList, List.drop_left]
    exact ⟨List.prefix_append _ _, rfl⟩

/-- The variable sets an option. -/
def SetsOption (var : String × String) (name : String) (value : Option String) : Prop :=
  ∃ rest, var.1 = "CARGO_CFG_" ++ rest ∧ name = Text.lowerText rest ∧ value ∈ valuesIn var.2

/-- The variable sets the feature with a key. -/
def SetsFeature (var : String × String) (key : String) : Prop := var.1 = "CARGO_FEATURE_" ++ key

variable {o : Options} {var : String × String} {env : List (String × String)} {name key : String}
  {value : Option String}

/-- No name has both openings. -/
theorem feature_ne_option (key rest : String) : "CARGO_FEATURE_" ++ key ≠ "CARGO_CFG_" ++ rest := by
  intro h
  rw [← String.toList_inj, String.toList_append, String.toList_append] at h
  have htake := congrArg (List.take 7) h
  rw [List.take_append_of_le_length (by decide), List.take_append_of_le_length (by decide)] at htake
  revert htake
  decide

/-- What is known after a variable. -/
theorem withVariable_cases (o : Options) (var : String × String) :
    (∃ key, SetsFeature var key ∧
      o.withVariable var.1 var.2 = { o with features := key :: o.features }) ∨
    (∃ rest, var.1 = "CARGO_CFG_" ++ rest ∧ o.withVariable var.1 var.2 =
      { o with
        known := true
        options := (valuesIn var.2).map (Text.lowerText rest, ·) ++ o.options }) ∨
    ((∀ key, ¬ SetsFeature var key) ∧ (∀ rest, var.1 ≠ "CARGO_CFG_" ++ rest) ∧
      o.withVariable var.1 var.2 = o) := by
  unfold withVariable
  cases hfeature : afterPrefix? "CARGO_FEATURE_" var.1 with
  | some key => exact Or.inl ⟨key, afterPrefix?_eq_some_iff.mp hfeature, rfl⟩
  | none =>
  cases hoption : afterPrefix? "CARGO_CFG_" var.1 with
  | some rest => exact Or.inr (Or.inl ⟨rest, afterPrefix?_eq_some_iff.mp hoption, rfl⟩)
  | none =>
    refine Or.inr (Or.inr ⟨fun key h => ?_, fun rest h => ?_, rfl⟩)
    · rw [afterPrefix?_eq_some_iff.mpr h] at hfeature
      cases hfeature
    · rw [afterPrefix?_eq_some_iff.mpr h] at hoption
      cases hoption

theorem mem_options_withVariable :
    (name, value) ∈ (o.withVariable var.1 var.2).options ↔
      (name, value) ∈ o.options ∨ SetsOption var name value := by
  rcases withVariable_cases o var with ⟨key, hkey, h⟩ | ⟨rest, hrest, h⟩ | ⟨-, hoption, h⟩
  · rw [h]
    refine (or_iff_left fun ⟨rest, hrest, _⟩ => ?_).symm
    exact feature_ne_option key rest (hkey.symm.trans hrest)
  · rw [h, List.mem_append, List.mem_map, or_comm]
    refine or_congr Iff.rfl ⟨?_, ?_⟩
    · rintro ⟨v, hv, heq⟩
      obtain ⟨rfl, rfl⟩ := Prod.mk.inj heq
      exact ⟨rest, hrest, rfl, hv⟩
    · rintro ⟨rest', hrest', rfl, hv⟩
      obtain rfl : rest = rest' := (String.append_right_inj _).mp (hrest.symm.trans hrest')
      exact ⟨value, hv, rfl⟩
  · rw [h]
    exact (or_iff_left fun ⟨rest, hrest, _⟩ => hoption rest hrest).symm

theorem mem_features_withVariable :
    key ∈ (o.withVariable var.1 var.2).features ↔ key ∈ o.features ∨ SetsFeature var key := by
  rcases withVariable_cases o var with ⟨key', hkey, h⟩ | ⟨rest, hrest, h⟩ | ⟨hfeature, -, h⟩
  · rw [h, List.mem_cons, or_comm]
    refine or_congr Iff.rfl ⟨?_, fun hkey' => ?_⟩
    · rintro rfl
      exact hkey
    · exact (String.append_right_inj _).mp (hkey'.symm.trans hkey)
  · rw [h]
    exact (or_iff_left fun hkey => feature_ne_option key rest (hkey.symm.trans hrest)).symm
  · rw [h]
    exact (or_iff_left (hfeature key)).symm

theorem known_withVariable (o : Options) (var : String × String) :
    (o.withVariable var.1 var.2).known = true ↔
      o.known = true ∨ ∃ rest, var.1 = "CARGO_CFG_" ++ rest := by
  rcases withVariable_cases o var with ⟨key, hkey, h⟩ | ⟨rest, hrest, h⟩ | ⟨-, hoption, h⟩
  · rw [h]
    exact (or_iff_left fun ⟨rest, hrest⟩ => feature_ne_option key rest (hkey.symm.trans hrest)).symm
  · rw [h]
    exact iff_of_true rfl (Or.inr ⟨rest, hrest⟩)
  · rw [h]
    exact (or_iff_left fun ⟨rest, hrest⟩ => hoption rest hrest).symm

theorem foldl_withVariable (env : List (String × String)) (o : Options) :
    let e := env.foldl (fun o v => o.withVariable v.1 v.2) o
    (e.known = true ↔ o.known = true ∨ ∃ var ∈ env, ∃ rest, var.1 = "CARGO_CFG_" ++ rest) ∧
      (∀ name value, (name, value) ∈ e.options ↔
        (name, value) ∈ o.options ∨ ∃ var ∈ env, SetsOption var name value) ∧
      ∀ key, key ∈ e.features ↔ key ∈ o.features ∨ ∃ var ∈ env, SetsFeature var key := by
  induction env generalizing o with
  | nil => simp
  | cons var env ih =>
    obtain ⟨hknown, hoptions, hfeatures⟩ := ih (o.withVariable var.1 var.2)
    simp only [List.foldl_cons, List.exists_mem_cons_iff, ← or_assoc]
    refine ⟨?_, fun name value => ?_, fun key => ?_⟩
    · rw [← known_withVariable]
      exact hknown
    · rw [← mem_options_withVariable]
      exact hoptions name value
    · rw [← mem_features_withVariable]
      exact hfeatures key

theorem known_ofEnvironment :
    (ofEnvironment env).known = true ↔ ∃ var ∈ env, ∃ rest, var.1 = "CARGO_CFG_" ++ rest :=
  (foldl_withVariable env unknown).1.trans (or_iff_right Bool.false_ne_true)

theorem mem_options_ofEnvironment :
    (name, value) ∈ (ofEnvironment env).options ↔ ∃ var ∈ env, SetsOption var name value :=
  ((foldl_withVariable env unknown).2.1 name value).trans (or_iff_right List.not_mem_nil)

theorem mem_features_ofEnvironment :
    key ∈ (ofEnvironment env).features ↔ ∃ var ∈ env, SetsFeature var key :=
  ((foldl_withVariable env unknown).2.2 key).trans (or_iff_right List.not_mem_nil)

/-! ## 2. Options as they are given -/

/-- The known options and features that are given one by one. -/
def build (options : List (String × Option String)) (features : List String) : Options :=
  features.foldl withFeature (options.foldl (fun o x => o.withOption x.1 x.2) .none)

theorem foldl_withOption (options : List (String × Option String)) (o : Options) :
    options.foldl (fun o x => o.withOption x.1 x.2) o =
      { o with options := options.reverse ++ o.options } := by
  induction options generalizing o with
  | nil => rfl
  | cons x options ih =>
    rw [List.foldl_cons, ih, withOption, List.reverse_cons, List.append_assoc,
      List.singleton_append]

theorem foldl_withFeature (features : List String) (o : Options) :
    features.foldl withFeature o =
      { o with features := (features.map featureKey).reverse ++ o.features } := by
  induction features generalizing o with
  | nil => rfl
  | cons f features ih =>
    rw [List.foldl_cons, ih, withFeature, List.map_cons, List.reverse_cons, List.append_assoc,
      List.singleton_append]

theorem build_eq (options : List (String × Option String)) (features : List String) :
    build options features = ⟨true, options.reverse, (features.map featureKey).reverse⟩ := by
  rw [build, foldl_withOption, foldl_withFeature, none, List.append_nil, List.append_nil]

/-! ## 3. Variables that describe options -/

variable {options : List (String × Option String)} {features : List String}

/-- The values of an option, in some order. -/
def Lists (options : List (String × Option String)) (name : String) (values : List String) : Prop :=
  ∀ v, v ∈ values ↔ (name, some v) ∈ options

/-- The variable of an option holds its values with commas between them. -/
def optionVariable (name : String) (values : List String) : String × String :=
  ("CARGO_CFG_" ++ Text.upperText name, ",".intercalate values)

def featureVariable (feature : String) : String × String :=
  ("CARGO_FEATURE_" ++ featureKey feature, "1")

/-- The environment has a variable for each option name and one for each feature. All others have
other openings. -/
structure Describes (options : List (String × Option String)) (features : List String)
    (env : List (String × String)) : Prop where
  hasOptions : ∀ x ∈ options, ∃ values, Lists options x.1 values ∧ optionVariable x.1 values ∈ env
  hasFeatures : ∀ f ∈ features, featureVariable f ∈ env
  others : ∀ var ∈ env,
    (∃ x ∈ options, ∃ values, Lists options x.1 values ∧ var = optionVariable x.1 values) ∨
    (∃ f ∈ features, var = featureVariable f) ∨
    ((∀ rest, var.1 ≠ "CARGO_CFG_" ++ rest) ∧ ∀ rest, var.1 ≠ "CARGO_FEATURE_" ++ rest)

/-- No value has a comma in it. -/
def CommaFree (options : List (String × Option String)) : Prop :=
  ∀ x ∈ options, ∀ value ∈ x.2, ',' ∉ value.toList

instance (options : List (String × Option String)) : Decidable (CommaFree options) :=
  inferInstanceAs (Decidable (∀ x ∈ options, ∀ value ∈ x.2, ',' ∉ value.toList))

/-- The variables of the options are not those of other options. -/
structure Legible (options : List (String × Option String)) : Prop where
  /-- Putting a name into uppercase loses nothing. -/
  caseless : ∀ x ∈ options, Text.lowerText (Text.upperText x.1) = x.1
  /-- An option that has a value is not set without one. -/
  valued : ∀ name value, (name, some value) ∈ options → (name, .none) ∈ options → name ∈ neverSet
  /-- The empty value is not the only one. -/
  notEmpty : ∀ name, (name, some "") ∈ options → ∃ value ≠ "", (name, some value) ∈ options

theorem valuesIn_empty : valuesIn "" = [.none] := rfl

/-- Values are read back, unless the empty one is alone. -/
theorem valuesIn_intercalate {values : List String} (hcomma : ∀ v ∈ values, ',' ∉ v.toList)
    (hne : values ≠ []) (hempty : values ≠ [""]) :
    valuesIn (",".intercalate values) = values.map some := by
  have htext : (",".intercalate values).toList = [','].intercalate (values.map String.toList) :=
    String.toList_intercalate
  have hnotEmpty : ¬ (",".intercalate values).isEmpty = true := by
    rw [String.isEmpty_iff]
    rcases values with _ | ⟨v, _ | ⟨w, values⟩⟩
    · exact absurd rfl hne
    · rw [String.intercalate_singleton]
      rintro rfl
      exact hempty rfl
    · rw [String.intercalate_cons_cons, ← String.toList_inj]
      simp
  rw [valuesIn, if_neg hnotEmpty, htext, List.splitOn_intercalate]
  · rw [List.map_map]
    refine List.map_congr_left fun v _ => ?_
    rw [Function.comp_apply, String.ofList_toList]
  · intro cs hcs
    obtain ⟨v, hv, rfl⟩ := List.mem_map.mp hcs
    exact hcomma v hv
  · simpa using hne

/-- What the variable of an option is read as. -/
theorem mem_valuesIn_iff (hcomma : CommaFree options) (hlegible : Legible options)
    {values : List String} (hlists : Lists options name values) :
    value ∈ valuesIn (",".intercalate values) ↔
      if values = [] then value = .none else (name, value) ∈ options ∧ value ≠ .none := by
  by_cases hne : values = []
  · rw [if_pos hne, hne, String.intercalate_nil, valuesIn_empty, List.mem_singleton]
  · have hempty : values ≠ [""] := by
      rintro rfl
      obtain ⟨v, hv, hmem⟩ := hlegible.notEmpty name ((hlists "").mp (List.mem_singleton_self _))
      exact hv (List.mem_singleton.mp ((hlists v).mpr hmem))
    have hvalues : ∀ v ∈ values, ',' ∉ v.toList := fun v hv =>
      hcomma _ ((hlists v).mp hv) v rfl
    rw [if_neg hne, valuesIn_intercalate hvalues hne hempty, List.mem_map]
    constructor
    · rintro ⟨v, hv, rfl⟩
      exact ⟨(hlists v).mp hv, Option.some_ne_none v⟩
    · rintro ⟨hmem, hsome⟩
      obtain ⟨v, rfl⟩ := Option.ne_none_iff_exists'.mp hsome
      exact ⟨v, (hlists v).mpr hmem, rfl⟩

section

variable (hcomma : CommaFree options) (hlegible : Legible options)
  (h : Describes options features env)
include hcomma hlegible h

/-- The options are read back, but for names that also have a value and are never set without. -/
theorem mem_options_ofEnvironment_iff (hset : value = .none → name ∉ neverSet) :
    (name, value) ∈ (ofEnvironment env).options ↔ (name, value) ∈ options := by
  rw [mem_options_ofEnvironment]
  constructor
  · rintro ⟨var, hvar, rest, hrest, rfl, hvalue⟩
    rcases h.others var hvar with ⟨x, hx, values, hlists, rfl⟩ | ⟨f, -, rfl⟩ | ⟨hother, -⟩
    · obtain rfl : Text.upperText x.1 = rest := (String.append_right_inj _).mp hrest
      rw [hlegible.caseless x hx]
      rw [optionVariable, mem_valuesIn_iff hcomma hlegible hlists] at hvalue
      split at hvalue
      case isTrue hnil =>
        -- No value is there, so the option is set without one.
        obtain ⟨name, _ | v⟩ := x
        · exact hvalue ▸ hx
        · exact absurd ((hlists v).mpr hx) (hnil ▸ List.not_mem_nil)
      case isFalse => exact hvalue.1
    · exact absurd hrest (feature_ne_option _ rest)
    · exact absurd hrest (hother rest)
  · intro hmem
    obtain ⟨values, hlists, hvar⟩ := h.hasOptions _ hmem
    refine ⟨_, hvar, _, rfl, (hlegible.caseless _ hmem).symm, ?_⟩
    rw [optionVariable, mem_valuesIn_iff hcomma hlegible hlists]
    cases value with
    | none =>
      refine if_pos (List.eq_nil_iff_forall_not_mem.mpr fun v hv => ?_) ▸ rfl
      exact hset rfl (hlegible.valued name v ((hlists v).mp hv) hmem)
    | some v =>
      have hne : values ≠ [] := List.ne_nil_of_mem ((hlists v).mpr hmem)
      rw [if_neg hne]
      exact ⟨hmem, Option.some_ne_none v⟩

omit hcomma hlegible in
theorem mem_features_ofEnvironment_iff :
    key ∈ (ofEnvironment env).features ↔ key ∈ features.map featureKey := by
  rw [mem_features_ofEnvironment, List.mem_map]
  constructor
  · rintro ⟨var, hvar, hkey⟩
    rcases h.others var hvar with ⟨x, -, values, -, rfl⟩ | ⟨f, hf, rfl⟩ | ⟨-, hother⟩
    · exact absurd hkey.symm (feature_ne_option key _)
    · exact ⟨f, hf, (String.append_right_inj _).mp hkey⟩
    · exact absurd hkey (hother key)
  · rintro ⟨f, hf, rfl⟩
    exact ⟨_, h.hasFeatures f hf, rfl⟩

omit hcomma hlegible in
theorem known_ofEnvironment_of_ne_nil (hne : options ≠ []) : (ofEnvironment env).known = true := by
  obtain ⟨x, hx⟩ := List.exists_mem_of_ne_nil options hne
  obtain ⟨values, -, hvar⟩ := h.hasOptions x hx
  exact known_ofEnvironment.mpr ⟨_, hvar, _, rfl⟩

end

/-! ## 4. Verdicts -/

variable {a b : Options}

mutual

/-- A verdict depends on nothing but those on options and features. -/
theorem eval_congr (hoption : ∀ name value, a.option name value = b.option name value)
    (hfeature : ∀ name, a.feature name = b.feature name) : ∀ p, a.eval p = b.eval p
  | .option name => by rw [eval, eval, hoption]
  | .optionValue name value => by rw [eval, eval, hoption]
  | .feature name => by rw [eval, eval, hfeature]
  | .all ps => by rw [eval, eval, evalAll_congr hoption hfeature ps]
  | .any ps => by rw [eval, eval, evalAll_congr hoption hfeature ps]
  | .not p => by rw [eval, eval, eval_congr hoption hfeature p]
  | .unclear => by rw [eval, eval]

theorem evalAll_congr (hoption : ∀ name value, a.option name value = b.option name value)
    (hfeature : ∀ name, a.feature name = b.feature name) : ∀ ps, a.evalAll ps = b.evalAll ps
  | [] => rfl
  | p :: ps => by
    rw [evalAll, evalAll, eval_congr hoption hfeature p, evalAll_congr hoption hfeature ps]

end

theorem enabled_congr (hoption : ∀ name value, a.option name value = b.option name value)
    (hfeature : ∀ name, a.feature name = b.feature name) (attrs : List Attribute) :
    a.enabled attrs = b.enabled attrs := by
  unfold enabled
  simp only [eval_congr hoption hfeature]

/-- **The environment of a build** says of attributes what the options and features say that it
describes, if these can be read back. -/
theorem enabled_ofEnvironment (options : List (String × Option String)) (features : List String)
    (env : List (String × String)) (attrs : List Attribute) (hne : options ≠ [])
    (hcomma : CommaFree options) (hlegible : Legible options)
    (h : Describes options features env) :
    (ofEnvironment env).enabled attrs = (build options features).enabled attrs := by
  have hknown := known_ofEnvironment_of_ne_nil h hne
  refine enabled_congr (fun name value => ?_) (fun name => ?_) attrs
  · unfold option
    rw [hknown, build_eq]
    split
    case isTrue => rfl
    case isFalse hset =>
      have hset' : value = .none → name ∉ neverSet := by simpa using hset
      have hmem := mem_options_ofEnvironment_iff hcomma hlegible h hset'
      simp [hmem]
  · unfold feature
    rw [hknown, build_eq]
    have hmem : featureKey name ∈ (ofEnvironment env).features ↔
        featureKey name ∈ features.map featureKey := mem_features_ofEnvironment_iff h
    simp [hmem]

/-- The attribute that asks for what some tokens spell. -/
def cfgAttribute (ts : List Token) : Attribute :=
  ⟨false, .list (.ofIdent (.plain "cfg")) .paren ts⟩

theorem enabled_cfgAttribute {ts : List Token} {p : Predicate} (h : Spells ts p) (o : Options) :
    o.enabled [cfgAttribute ts] = o.eval p := by
  have hand (v : Verdict) : Verdict.and (some true) v = v := by
    rcases v with _ | _ | _ <;> rfl
  show Verdict.and (some true) (o.eval (.ofAttribute (cfgAttribute ts))) = o.eval p
  rw [AsksFor.ofAttribute_eq ⟨ts, rfl, h⟩, hand]

/-- The options of a Linux build, with a feature. -/
def linux : List (String × Option String) :=
  [("unix", .none), ("target_os", some "linux"), ("target_feature", some "fxsr"),
    ("target_feature", some "sse")]

def linuxEnvironment : List (String × String) :=
  [("PATH", "/usr/bin"), ("CARGO_CFG_TARGET_FEATURE", "sse,fxsr"),
    ("CARGO_FEATURE_POSTGRES_JSON", "1"), ("CARGO_CFG_UNIX", ""), ("CARGO_CFG_TARGET_OS", "linux")]

/-- An attribute that needs an option, one of the values of an option, and a feature. -/
def linuxTokens : List Token :=
  [.word "all", .paren ([.word "unix"] ++ .punct ',' false ::
    ([.word "target_feature", .punct '=' false, .literal "\"sse\""] ++ .punct ',' false ::
      [.word "feature", .punct '=' false, .literal "\"postgres-json\""]))]

theorem spells_linux : Spells linuxTokens
    (.all [.option "unix", .optionValue "target_feature" "sse", .feature "postgres-json"]) :=
  .all .paren rfl (.more false (.option rfl)
    (.more false (.optionValue false rfl (by decide) rfl) (.last (.feature false rfl rfl rfl))))

theorem linuxEnvironment_eq : linuxEnvironment =
    [("PATH", "/usr/bin"), optionVariable "target_feature" ["sse", "fxsr"],
      featureVariable "postgres-json", optionVariable "unix" [],
      optionVariable "target_os" ["linux"]] := by
  decide +kernel

theorem describes_linux : Describes linux ["postgres-json"] linuxEnvironment := by
  have lists_unix : Lists linux "unix" [] := by simp [Lists, linux]
  have lists_os : Lists linux "target_os" ["linux"] := by simp [Lists, linux]
  have lists_feature : Lists linux "target_feature" ["sse", "fxsr"] := by
    simp [Lists, linux, or_comm]
  rw [linuxEnvironment_eq]
  refine ⟨?_, ?_, ?_⟩
  · simp only [linux, List.forall_mem_cons, List.not_mem_nil, false_implies, implies_true, and_true]
    refine ⟨⟨[], lists_unix, ?_⟩, ⟨["linux"], lists_os, ?_⟩, ⟨["sse", "fxsr"], lists_feature, ?_⟩,
      ⟨["sse", "fxsr"], lists_feature, ?_⟩⟩
    all_goals simp only [List.mem_cons, true_or, or_true]
  · rw [List.forall_mem_singleton]
    simp only [List.mem_cons, true_or, or_true]
  · simp only [List.forall_mem_cons, List.not_mem_nil, false_implies, implies_true, and_true]
    refine ⟨Or.inr (Or.inr ⟨fun rest h => ?_, fun rest h => ?_⟩), Or.inl ?_,
      Or.inr (Or.inl ⟨"postgres-json", List.mem_singleton_self _, rfl⟩), Or.inl ?_, Or.inl ?_⟩
    · have hfirst := congrArg (fun s => s.toList.take 1) h
      simp at hfirst
    · have hfirst := congrArg (fun s => s.toList.take 1) h
      simp at hfirst
    · exact ⟨("target_feature", some "sse"), by simp [linux], ["sse", "fxsr"], lists_feature, rfl⟩
    · exact ⟨("unix", .none), by simp [linux], [], lists_unix, rfl⟩
    · exact ⟨("target_os", some "linux"), by simp [linux], ["linux"], lists_os, rfl⟩

theorem enabled_ofEnvironment_linux :
    linux ≠ [] ∧ CommaFree linux ∧ Legible linux ∧
      Describes linux ["postgres-json"] linuxEnvironment ∧
      (ofEnvironment linuxEnvironment).enabled [cfgAttribute linuxTokens] = some true := by
  have hne : linux ≠ [] := List.cons_ne_nil _ _
  have hcomma : CommaFree linux := by decide +kernel
  have hlegible : Legible linux := by
    refine ⟨by decide +kernel, fun name value hv h => ?_, fun name h => ?_⟩
    · obtain rfl : name = "unix" := by simpa [linux] using h
      simp [linux] at hv
    · simp [linux] at h
  refine ⟨hne, hcomma, hlegible, describes_linux, ?_⟩
  rw [enabled_ofEnvironment linux ["postgres-json"] linuxEnvironment _ hne hcomma hlegible
    describes_linux, enabled_cfgAttribute spells_linux]
  decide +kernel

/-- The environment describes the options, and says of an attribute that its item is not compiled,
although it is. -/
def Misleads (options : List (String × Option String)) (env : List (String × String))
    (ts : List Token) : Prop :=
  CommaFree options ∧ Describes options [] env ∧
    (ofEnvironment env).enabled [cfgAttribute ts] = some false ∧
    (build options []).enabled [cfgAttribute ts] = some true

theorem describes_of_forall {name : String} {values : List String} {var : String × String}
    (hne : options ≠ []) (hname : ∀ x ∈ options, x.1 = name) (hlists : Lists options name values)
    (hvar : optionVariable name values = var) : Describes options [] [var] := by
  subst hvar
  refine ⟨fun x hx => ?_, fun _ hf => (List.not_mem_nil hf).elim, ?_⟩
  · rw [hname x hx]
    exact ⟨values, hlists, List.mem_singleton_self _⟩
  · obtain ⟨x, hx⟩ := List.exists_mem_of_ne_nil options hne
    rw [List.forall_mem_singleton, ← hname x hx] at *
    exact Or.inl ⟨x, hx, values, hlists, rfl⟩

/-- Each condition for options to be legible is needed: an option whose one value is empty has the
variable of an option without a value; names that differ in case have one variable; and a variable
with values does not say whether the option is also set without one. -/
theorem misleads_illegible :
    Misleads [("target_env", some "")] [("CARGO_CFG_TARGET_ENV", "")]
        [.word "target_env", .punct '=' false, .literal "\"\""] ∧
      Misleads [("Foo", .none)] [("CARGO_CFG_FOO", "")] [.word "Foo"] ∧
      Misleads [("target_has_atomic", .none), ("target_has_atomic", some "8")]
        [("CARGO_CFG_TARGET_HAS_ATOMIC", "8")] [.word "target_has_atomic"] := by
  have misleads {options : List (String × Option String)} {name : String} {values : List String}
      {var : String × String} {ts : List Token} {p : Predicate} (hspells : Spells ts p)
      (hlists : Lists options name values)
      (heval : options ≠ [] ∧ (∀ x ∈ options, x.1 = name) ∧ CommaFree options ∧
        optionVariable name values = var ∧ (ofEnvironment [var]).eval p = some false ∧
        (build options []).eval p = some true) : Misleads options [var] ts := by
    obtain ⟨hne, hname, hcomma, hvar, hfalse, htrue⟩ := heval
    refine ⟨hcomma, describes_of_forall hne hname hlists hvar, ?_, ?_⟩
    · rw [enabled_cfgAttribute hspells, hfalse]
    · rw [enabled_cfgAttribute hspells, htrue]
  refine ⟨?_, ?_, ?_⟩
  · have hspells : Spells [.word "target_env", .punct '=' false, .literal "\"\""]
        (.optionValue "target_env" "") := .optionValue false rfl (by decide) rfl
    have hlists : Lists [("target_env", some "")] "target_env" [""] := by simp [Lists]
    exact misleads hspells hlists (by decide +kernel)
  · have hlists : Lists [("Foo", .none)] "Foo" [] := by simp [Lists]
    exact misleads (.option rfl) hlists (by decide +kernel)
  · have hlists : Lists [("target_has_atomic", .none), ("target_has_atomic", some "8")]
        "target_has_atomic" ["8"] := by simp [Lists]
    exact misleads (.option rfl) hlists (by decide +kernel)

/-- So options that are not legible may not be read back. -/
theorem not_enabled_ofEnvironment :
    ¬ ∀ (options : List (String × Option String)) (features : List String)
      (env : List (String × String)) (attrs : List Attribute), options ≠ [] →
      (∀ x ∈ options, ∃ i : Ident, i.isName = true ∧ i.text = x.1) → CommaFree options →
      Describes options features env →
      (ofEnvironment env).enabled attrs = (build options features).enabled attrs := by
  intro h
  obtain ⟨hcomma, hdescribes, hfalse, htrue⟩ := misleads_illegible.1
  have hnames : ∀ x ∈ [("target_env", some "")], ∃ i : Ident, i.isName = true ∧ i.text = x.1 := by
    rw [List.forall_mem_singleton]
    exact ⟨.plain "target_env", by decide +kernel, rfl⟩
  have htold : some false = some true :=
    hfalse.symm.trans ((h _ [] _ _ (List.cons_ne_nil _ _) hnames hcomma hdescribes).trans htrue)
  cases htold

end Options

end EnumCatalog.Cfg
