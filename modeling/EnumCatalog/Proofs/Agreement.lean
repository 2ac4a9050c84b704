import EnumCatalog.Proofs.Conversion

/-!
# The mapper and the model agree

The generated functions go through one list of enums twice: once to map each type and once to
declare it. The mapper finds a type again by its identity, the model by its schema and its database
name. Hence the model has an entry for every type that was mapped, but if several types resolve to
one name it is the entry of the *last* of them (`Model.find?_declareAll`), and its labels are right
for the others only if they have the same ones.
-/

set_option autoImplicit false

namespace EnumCatalog

namespace EnumType

/-- No two types of the list have one identity. A type may stand in the list more than once. -/
def Distinguished (enums : List EnumType) : Prop :=
  ∀ E ∈ enums, ∀ F ∈ enums, E.identity = F.identity → E = F

/-- The last type of a list that resolves to a database name. -/
def lastNamed? (enums : List EnumType) (n : Naming) (name : String) : Option EnumType :=
  (enums.filter fun E => E.databaseName n = name).getLast?

theorem mem_of_lastNamed? {enums : List EnumType} {n : Naming} {name : String} {E : EnumType}
    (h : lastNamed? enums n name = some E) : E ∈ enums ∧ E.databaseName n = name := by
  have hmem : E ∈ enums.filter fun E => E.databaseName n = name := List.mem_of_getLast? h
  simpa using hmem

theorem exists_lastNamed? {enums : List EnumType} {n : Naming} {E : EnumType} (hE : E ∈ enums) :
    ∃ F, lastNamed? enums n (E.databaseName n) = some F := by
  refine Option.ne_none_iff_exists'.mp fun hnone => ?_
  have hnil : enums.filter (fun F => F.databaseName n = E.databaseName n) = [] :=
    List.getLast?_eq_none_iff.mp hnone
  have hmem : E ∈ enums.filter (fun F => F.databaseName n = E.databaseName n) := by
    simpa using hE
  rw [hnil] at hmem
  exact List.not_mem_nil hmem

end EnumType

open EnumType (Distinguished lastNamed?)

/-! ## 1. The mapper -/

/-- Every type of the list ends up with its own mapping. -/
theorem Mapper.get?_mapAll {enums : List EnumType} (henums : Distinguished enums)
    (m : Mapper) (naming : Option Naming) {E : EnumType} (hE : E ∈ enums) :
    (m.mapAll enums naming).get? E = some (mappingOf E naming) := by
  rw [mapAll_eq_mapEach, get?_mapEach]
  cases hlast : lastCall? (enums.map (·, naming)) E with
  | none =>
    have hcall : ((E, naming) : Call) ∈ enums.map (·, naming) := List.mem_map_of_mem hE
    exact absurd rfl (lastCall?_eq_none_iff.mp hlast (E, naming) hcall)
  | some c =>
    have hmem : c ∈ (enums.map (·, naming)).filter fun c => E.identity = c.1.identity :=
      List.mem_of_getLast? hlast
    obtain ⟨hc, hid⟩ := List.mem_filter.mp hmem
    obtain ⟨F, hF, rfl⟩ := List.mem_map.mp hc
    rw [henums E hE F hF (by simpa using hid)]
    rfl

/-! ## 2. The model -/

namespace Model

@[simp] theorem find?_empty (schema : Option String) (name : String) :
    empty.find? schema name = none := rfl

@[simp] theorem find?_declareEnum (m : Model) (E : EnumType) (schema : Option String)
    (naming : Option Naming) (name : String) :
    (m.declareEnum E schema E.aliasName naming).find? schema name =
      if E.databaseName (Naming.orDefault naming) = name
      then some (declarationOf E schema E.aliasName naming) else m.find? schema name := by
  have hput := Ordered.get?_put m.table (schema, E.databaseName (Naming.orDefault naming))
    (schema, name) (declarationOf E schema E.aliasName naming)
  simp only [Prod.mk.injEq, true_and, eq_comm (a := name)] at hput
  exact hput

/-- Of several types that resolve to one name the last one counts. -/
theorem find?_declareAll (m : Model) (enums : List EnumType) (schema : Option String)
    (naming : Option Naming) (name : String) :
    (m.declareAll enums schema naming).find? schema name =
      ((lastNamed? enums (Naming.orDefault naming) name).map fun E =>
        declarationOf E schema E.aliasName naming).or (m.find? schema name) := by
  induction enums using List.reverseRecOn with
  | nil => rfl
  | append_singleton enums E ih =>
    have hstep : m.declareAll (enums ++ [E]) schema naming =
        (m.declareAll enums schema naming).declareEnum E schema E.aliasName naming := by
      simp [declareAll, List.foldl_append]
    rw [hstep, find?_declareEnum]
    by_cases h : E.databaseName (Naming.orDefault naming) = name
    · simp [h, lastNamed?, List.filter_append]
    · rw [if_neg h, ih]
      simp [h, lastNamed?, List.filter_append]

end Model

/-! ## 3. Both -/

/-- After the two generated functions have run, the model has an entry under the name that the
mapper gives for each type of the list. The labels of that entry are those of the mapper for all
types exactly if types that resolve to one name have the same labels. -/
theorem mapAll_declareAll_agree {enums : List EnumType} (henums : Distinguished enums)
    (schema : Option String) (naming : Option Naming) :
    let mapper := Mapper.empty.mapAll enums naming
    let model := Model.empty.declareAll enums schema naming
    let n := Naming.orDefault naming
    (∀ E ∈ enums, ∃ name d, mapper.databaseName? E = some name ∧
      model.find? schema name = some d) ∧
    ((∀ E ∈ enums, ∀ name d, mapper.databaseName? E = some name → model.find? schema name = some d →
        (mapper.get? E).map (·.labels) = some d.labels) ↔
      ∀ E ∈ enums, ∀ F ∈ enums, E.databaseName n = F.databaseName n → E.labels n = F.labels n) := by
  intro mapper model n
  have hget (E : EnumType) (hE : E ∈ enums) :
      mapper.get? E = some (Mapper.mappingOf E naming) := Mapper.get?_mapAll henums _ naming hE
  have hname (E : EnumType) (hE : E ∈ enums) :
      mapper.databaseName? E = some (E.databaseName n) := by
    rw [Mapper.databaseName?, hget E hE]
    rfl
  have hfind (E F : EnumType) (hF : lastNamed? enums n (E.databaseName n) = some F) :
      model.find? schema (E.databaseName n) =
        some (Model.declarationOf F schema F.aliasName naming) := by
    rw [Model.find?_declareAll, hF]
    rfl
  refine ⟨fun E hE => ?_, fun hall E hE F hF hsame => ?_, fun hall E hE name d hE' hd => ?_⟩
  · obtain ⟨F, hF⟩ := EnumType.exists_lastNamed? (n := n) hE
    exact ⟨_, _, hname E hE, hfind E F hF⟩
  · -- Both types are found under the entry of the last one of their name.
    obtain ⟨G, hG⟩ := EnumType.exists_lastNamed? (n := n) hE
    have hlabelsE := hall E hE _ _ (hname E hE) (hfind E G hG)
    have hlabelsF := hall F hF _ _ (hname F hF) (hfind F G (hsame ▸ hG))
    rw [hget E hE] at hlabelsE
    rw [hget F hF] at hlabelsF
    exact (Option.some.inj hlabelsE).trans (Option.some.inj hlabelsF).symm
  · rw [hname E hE] at hE'
    obtain rfl := Option.some.inj hE'
    obtain ⟨F, hF⟩ := EnumType.exists_lastNamed? (n := n) hE
    rw [hfind E F hF] at hd
    obtain rfl := Option.some.inj hd
    obtain ⟨hmem, hsame⟩ := EnumType.mem_of_lastNamed? hF
    rw [hget E hE]
    exact congrArg some (hall E hE F hmem hsame.symm)

/-- An enum that asks for the name which another one gets by the convention. -/
def wildlife : EnumType :=
  .ofVariants "zoo::Animals" "Animals" ["Wolf", "Cat"] (some "animals")

/-- Two types that resolve to the name `animals`, one of them twice in the list. Both are found
under that name, but its labels are not those that the mapper has for both. -/
theorem mapAll_declareAll_disagree :
    let enums := [PetShop.animals, wildlife, PetShop.animals]
    let mapper := Mapper.empty.mapAll enums none
    let model := Model.empty.declareAll enums (some "public") none
    Distinguished enums ∧
    (∃ name d, mapper.databaseName? wildlife = some name ∧
      model.find? (some "public") name = some d) ∧
    ¬ ∀ E ∈ enums, ∀ name d, mapper.databaseName? E = some name →
      model.find? (some "public") name = some d → (mapper.get? E).map (·.labels) = some d.labels := by
  intro enums mapper model
  have henums : Distinguished enums := by
    intro E hE F hF
    simp only [enums, List.mem_cons, List.not_mem_nil, or_false] at hE hF
    rcases hE with rfl | rfl | rfl <;> rcases hF with rfl | rfl | rfl <;>
      first | exact fun _ => rfl | exact fun h => absurd h (by decide)
  obtain ⟨hfound, hiff⟩ := mapAll_declareAll_agree henums (some "public") none
  refine ⟨henums, hfound wildlife (by simp [enums]), fun hall => ?_⟩
  have hsnake : Text.snakeCase "Animals" = "animals" := by decide +kernel
  have hlabels := hiff.mp hall PetShop.animals (by simp [enums]) wildlife (by simp [enums]) hsnake
  exact absurd (congrArg List.length hlabels) (by simp [EnumType.labels, PetShop.animals, wildlife,
    EnumType.ofVariants])

end EnumCatalog
