import EnumCatalog.Proofs.CreateStatement
import EnumCatalog.Proofs.InsertionOrder

/-!
# Every type is created once

The statements of a model create its declared types one by one, and a database would refuse one that
creates a type that is there already. So no two statements may name the same type, and what counts is
the name that the database *reads*: an identifier behind a schema or without one
(`readTypeName?`). Two facts come together. The model never holds two declarations of one schema and
name, whatever calls have led to it; and a declaration's schema and name are read back from its
statement as they are (`createdType?_createStatement`), so quotes and dots in them make no two names
the same.
-/

set_option autoImplicit false

namespace EnumCatalog

namespace Sql

/-! ## 1. Names of types -/

/-- The name of a type that some tokens open with, behind a schema if there is one, and what follows
it. -/
def readTypeName? : List Token → Option ((Option String × String) × List Token)
  | .name s :: .mark '.' :: .name n :: rest => some ((some s, n), rest)
  | .name n :: rest => some ((none, n), rest)
  | _ => none

/-- The schema and name that a text is read as. -/
def typeName? (text : String) : Option (Option String × String) := do
  let (k, rest) ← readTypeName? (← tokens? text)
  if rest.isEmpty then some k else none

/-- The schema and name of the type that a statement creates. -/
def createdType? (statement : String) : Option (Option String × String) := do
  match ← tokens? statement with
  | .word "CREATE" :: .word "TYPE" :: ts => (readTypeName? ts).map Prod.fst
  | _ => none

variable (d : EnumDecl)

theorem readTypeName?_nameTokens (rest : List Token) (hrest : rest.head? ≠ some (.mark '.')) :
    readTypeName? (d.nameTokens ++ rest) = some (d.key, rest) := by
  unfold EnumDecl.nameTokens EnumDecl.key
  cases d.schema with
  | some s => rfl
  | none =>
    -- A dot would make a schema of the name.
    cases rest with
    | nil => rfl
    | cons t rest =>
      show readTypeName? (.name d.name :: t :: rest) = _
      unfold readTypeName?
      split
      · next h =>
        obtain ⟨-, h⟩ := List.cons.inj h
        exact absurd (congrArg some (List.cons.inj h).1) hrest
      · next h =>
        cases h
        rfl
      · next h => exact absurd rfl (h d.name (t :: rest))

theorem typeName?_qualifiedName : typeName? d.qualifiedName = some d.key := by
  have hread := readTypeName?_nameTokens d [] (by simp)
  rw [List.append_nil] at hread
  rw [typeName?, tokens?_qualifiedName, Option.bind_eq_bind, Option.bind_some, hread]
  rfl

/-- A statement names the type that it creates. -/
theorem createdType?_createStatement : createdType? d.createStatement = some d.key := by
  have hread := readTypeName?_nameTokens d
    ([.word "AS", .word "ENUM", .mark '('] ++ (d.labelTokens ++ [.mark ')', .mark ';']))
    (by simp)
  have htokens : d.statementTokens = .word "CREATE" :: .word "TYPE" ::
      (d.nameTokens ++ ([.word "AS", .word "ENUM", .mark '('] ++
        (d.labelTokens ++ [.mark ')', .mark ';']))) := by
    simp [EnumDecl.statementTokens]
  rw [createdType?, tokens?_createStatement, htokens, Option.bind_eq_bind, Option.bind_some]
  show (readTypeName? _).map Prod.fst = _
  rw [hread]
  rfl

end Sql

open Sql

/-! ## 2. Models -/

namespace Model

/-- The statements of a model that any calls have led to are one for each schema and name that they
declare, in the order of the first calls: each is the statement of the declaration there, and each
is read as creating the type of that schema and name. So no two of them create the same type, and no
two of the quoted names are read as the same. -/
theorem createStatements_nodup (calls : List Call) :
    let m := empty.declareEach calls
    List.Forall₂ (fun k s => ∃ d, m.find? k.1 k.2 = some d ∧ s = d.createStatement ∧
        createdType? s = some k ∧ typeName? d.qualifiedName = some k)
      (calls.map (·.decl.key)).eraseDups m.createStatements ∧
    (m.createStatements.map createdType?).Nodup ∧
    (m.decls.map fun d => typeName? d.qualifiedName).Nodup := by
  intro m
  have hkeeps : m.Keeps calls := keeps_declareEach calls
  -- The types that are created are the keys of the declarations, which are all different.
  have hsome : (m.decls.map fun d => some d.key).Nodup := by
    have hmap : (m.decls.map fun d => some d.key) = (m.decls.map EnumDecl.key).map some := by
      rw [List.map_map]
      rfl
    rw [hmap]
    exact hkeeps.nodup.map fun _ _ => Option.some.inj
  refine ⟨?_, ?_, ?_⟩
  · rw [← hkeeps.keys, createStatements, List.forall₂_map_left_iff, List.forall₂_map_right_iff,
      List.forall₂_same]
    intro d hd
    exact ⟨d, (hkeeps.find?_eq_some_iff _ _ d).mpr ⟨hd, rfl, rfl⟩, rfl,
      createdType?_createStatement d, typeName?_qualifiedName d⟩
  · have hcreated : m.createStatements.map createdType? = m.decls.map fun d => some d.key := by
      rw [createStatements, List.map_map]
      exact List.map_congr_left fun d _ => createdType?_createStatement d
    rw [hcreated]
    exact hsome
  · simp only [typeName?_qualifiedName]
    exact hsome

end Model

/-- A name that looks like a schema and a name, and the schema and the name. -/
example : createdType? "CREATE TYPE \"a\"\".\"\"b\" AS ENUM ();" = some (none, "a\".\"b") ∧
    createdType? "CREATE TYPE \"a\".\"b\" AS ENUM ();" = some (some "a", "b") := by
  cbv

end EnumCatalog
