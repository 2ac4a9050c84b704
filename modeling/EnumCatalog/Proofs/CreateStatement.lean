import EnumCatalog.Sql.EnumDecl
import EnumCatalog.Sql.Token
import Mathlib.Logic.Function.Basic

/-!
# The statement reads back

`CREATE TYPE` as a database reads it. Whatever a schema, a name or a label holds, it is read as one
token with that value, because every quote in it is doubled; so the statement has the tokens that its
declaration says (`EnumDecl.statementTokens`) and no others. The values of these tokens are those of
the declaration in order, so different declarations have different statements.
-/

set_option autoImplicit false

namespace EnumCatalog.Sql

/-! ## 1. Quoted texts -/

section

variable {quote : Char} {rest : List Char}

/-- The closing quote that is written is the first that is not doubled. -/
theorem readQuoted_doubled (s : List Char) (hrest : rest.head? ≠ some quote) :
    readQuoted quote (doubled quote s ++ quote :: rest) = some (s, rest) := by
  induction s with
  | nil =>
    cases rest with
    | nil => simp [doubled, readQuoted]
    | cons d rest =>
      have hd : d ≠ quote := fun e => hrest (congrArg some e)
      simp [doubled, readQuoted, hd]
  | cons c s ih =>
    by_cases hc : c = quote
    · subst hc
      simp [doubled, readQuoted, ih]
    · -- The first character is no quote, so reading goes on behind it, whatever comes next.
      obtain ⟨d, more, hmore⟩ : ∃ d more, doubled quote s ++ quote :: rest = d :: more :=
        List.exists_cons_of_ne_nil (List.append_ne_nil_of_right_ne_nil _ (List.cons_ne_nil _ _))
      rw [hmore] at ih
      simp [doubled, readQuoted, hc, hmore, ih]

theorem toList_enclosed_append (s : String) :
    (enclosed quote s).toList ++ rest = quote :: (doubled quote s.toList ++ quote :: rest) := by
  simp [enclosed]

theorem tokensOf?_identifier (s : String) (hrest : rest.head? ≠ some '"') :
    tokensOf? ((identifier s).toList ++ rest) = (tokensOf? rest).map (.name s :: ·) := by
  have hread : readQuoted '"' (doubled '"' s.toList ++ '"' :: rest) = some (s.toList, rest) :=
    readQuoted_doubled s.toList hrest
  rw [identifier, toList_enclosed_append, tokensOf?, if_pos rfl]
  split
  · next s' rest' h =>
    obtain ⟨rfl, rfl⟩ := Prod.mk.inj (Option.some.inj (hread.symm.trans h))
    rw [String.ofList_toList]
  · next h => cases hread.symm.trans h

theorem tokensOf?_literal (s : String) (hrest : rest.head? ≠ some '\'') :
    tokensOf? ((literal s).toList ++ rest) = (tokensOf? rest).map (.text s :: ·) := by
  have hread : readQuoted '\'' (doubled '\'' s.toList ++ '\'' :: rest) = some (s.toList, rest) :=
    readQuoted_doubled s.toList hrest
  rw [literal, toList_enclosed_append, tokensOf?, if_neg (by decide), if_pos rfl]
  split
  · next s' rest' h =>
    obtain ⟨rfl, rfl⟩ := Prod.mk.inj (Option.some.inj (hread.symm.trans h))
    rw [String.ofList_toList]
  · next h => cases hread.symm.trans h

end

/-! ## 2. What stands outside quotes -/

section

variable {c : Char} {rest : List Char}

theorem tokensOf?_mark (hquote : c ≠ '"') (hapostrophe : c ≠ '\'') (hblank : isBlank c = false)
    (hword : isWordChar c = false) : tokensOf? (c :: rest) = (tokensOf? rest).map (.mark c :: ·) := by
  rw [tokensOf?, if_neg hquote, if_neg hapostrophe, hblank, hword]
  rfl

theorem tokensOf?_blank : tokensOf? (' ' :: rest) = tokensOf? rest := by
  rw [tokensOf?, if_neg (by decide), if_neg (by decide), if_pos (by rfl)]

/-- A word is read up to the blank after it. -/
theorem tokensOf?_word {word : String} {c : Char} {cs : List Char} (heq : word.toList = c :: cs)
    (hword : (c :: cs).all isWordChar = true) :
    tokensOf? (word.toList ++ ' ' :: rest) = (tokensOf? rest).map (.word word :: ·) := by
  obtain ⟨hc, hcs⟩ := Bool.and_eq_true_iff.mp (List.all_cons.symm.trans hword)
  have hcs' : ∀ x ∈ cs, isWordChar x = true := List.all_eq_true.mp hcs
  have hquote : c ≠ '"' := fun e => by subst e; cases hc
  have hapostrophe : c ≠ '\'' := fun e => by subst e; cases hc
  have hblank : isBlank c = false := by
    by_contra h
    simp only [isBlank, Bool.not_eq_false, Bool.or_eq_true, beq_iff_eq] at h
    obtain (((rfl | rfl) | rfl) | rfl) | rfl := h <;> cases hc
  have hdrop : (cs ++ ' ' :: rest).dropWhile isWordChar = ' ' :: rest := by
    rw [List.dropWhile_append_of_pos hcs']
    rfl
  have htake : (cs ++ ' ' :: rest).takeWhile isWordChar = cs := by
    rw [List.takeWhile_append_of_pos hcs', List.takeWhile_cons_of_neg (by decide), List.append_nil]
  rw [heq, List.cons_append, tokensOf?, if_neg hquote, if_neg hapostrophe, hblank, hc,
    if_neg (by decide), if_pos rfl, hdrop, htake, tokensOf?_blank, ← heq, String.ofList_toList]

end

/-! ## 3. Statements -/

namespace EnumDecl

/-- The name of the type behind its schema. -/
def nameTokens (d : EnumDecl) : List Token :=
  match d.schema with
  | some s => [.name s, .mark '.', .name d.name]
  | none => [.name d.name]

/-- The labels with a comma between each two. -/
def labelTokens (d : EnumDecl) : List Token := (d.labels.map Token.text).intersperse (.mark ',')

/-- The statement that creates the type: its name, then its labels in parentheses, and a semicolon at
the end. -/
def statementTokens (d : EnumDecl) : List Token :=
  [.word "CREATE", .word "TYPE"] ++ d.nameTokens ++ [.word "AS", .word "ENUM", .mark '('] ++
    d.labelTokens ++ [.mark ')', .mark ';']

end EnumDecl

open EnumDecl

theorem tokensOf?_qualifiedName (d : EnumDecl) {rest : List Char} (hrest : rest.head? ≠ some '"') :
    tokensOf? (d.qualifiedName.toList ++ rest) = (tokensOf? rest).map (d.nameTokens ++ ·) := by
  unfold qualifiedName nameTokens
  cases d.schema with
  | none => exact tokensOf?_identifier d.name hrest
  | some s =>
    have hdot : ".".toList = ['.'] := rfl
    show tokensOf? ((identifier s ++ "." ++ identifier d.name).toList ++ rest) = _
    rw [String.toList_append, String.toList_append, List.append_assoc, List.append_assoc, hdot,
      List.singleton_append, tokensOf?_identifier s (by simp),
      tokensOf?_mark (by decide) (by decide) rfl rfl, tokensOf?_identifier d.name hrest,
      Option.map_map, Option.map_map]
    rfl

/-- The labels are read up to the parenthesis after them. -/
theorem tokensOf?_labels (labels : List String) (rest : List Char) :
    tokensOf? ((String.intercalate ", " (labels.map literal)).toList ++ ')' :: rest) =
      (tokensOf? (')' :: rest)).map ((labels.map Token.text).intersperse (.mark ',') ++ ·) := by
  induction labels with
  | nil => simp [String.intercalate]
  | cons l labels ih =>
    cases labels with
    | nil =>
      show tokensOf? ((String.intercalate ", " [literal l]).toList ++ ')' :: rest) = _
      rw [String.intercalate_singleton]
      exact tokensOf?_literal l (by simp)
    | cons l' labels =>
      have hcomma : ", ".toList = [',', ' '] := rfl
      rw [List.map_cons, List.map_cons, String.intercalate_cons_cons, ← List.map_cons,
        String.toList_append, String.toList_append, List.append_assoc, List.append_assoc, hcomma,
        List.cons_append, List.singleton_append, tokensOf?_literal l (by simp),
        tokensOf?_mark (by decide) (by decide) rfl rfl, tokensOf?_blank, ih, Option.map_map,
        Option.map_map]
      rfl

theorem tokens?_qualifiedName (d : EnumDecl) : tokens? d.qualifiedName = some d.nameTokens := by
  have hend : ([] : List Char).head? ≠ some '"' := by simp
  have h := tokensOf?_qualifiedName d hend
  rw [List.append_nil] at h
  simpa [tokens?, tokensOf?] using h

theorem tokens?_createStatement (d : EnumDecl) :
    tokens? d.createStatement = some d.statementTokens := by
  -- The keywords, word by word; what stands between them is read by the lemmas above.
  have hcreate : "CREATE TYPE ".toList = "CREATE".toList ++ ' ' :: ("TYPE".toList ++ [' ']) := rfl
  have henum : " AS ENUM (".toList = ' ' :: ("AS".toList ++ ' ' :: ("ENUM".toList ++ [' ', '('])) :=
    rfl
  have hend : ");".toList = [')', ';'] := rfl
  have hlabels : tokensOf? ((String.intercalate ", " (d.labels.map literal)).toList ++ [')', ';']) =
      some (d.labelTokens ++ [.mark ')', .mark ';']) := by
    rw [tokensOf?_labels, tokensOf?_mark (by decide) (by decide) rfl rfl,
      tokensOf?_mark (by decide) (by decide) rfl rfl, tokensOf?]
    rfl
  have hname : (' ' :: ("AS".toList ++ ' ' :: ("ENUM".toList ++ ' ' :: '(' ::
      ((String.intercalate ", " (d.labels.map literal)).toList ++ [')', ';'])))).head? ≠ some '"' := by
    simp
  unfold tokens? createStatement
  simp only [String.toList_append, hcreate, henum, hend, List.append_assoc, List.cons_append,
    List.nil_append]
  rw [tokensOf?_word rfl rfl, tokensOf?_word rfl rfl, tokensOf?_qualifiedName d hname,
    tokensOf?_blank, tokensOf?_word rfl rfl, tokensOf?_word rfl rfl,
    tokensOf?_mark (by decide) (by decide) rfl rfl, hlabels, statementTokens]
  simp only [Option.map_some, List.append_assoc, List.cons_append, List.nil_append]

/-! ## 4. The values of the tokens -/

/-- The value of a token in double quotes. -/
def Token.name? : Token → Option String
  | .name s => some s
  | _ => none

/-- The value of a token in single quotes. -/
def Token.text? : Token → Option String
  | .text s => some s
  | _ => none

namespace EnumDecl

variable (d : EnumDecl)

theorem filterMap_name?_nameTokens :
    d.nameTokens.filterMap Token.name? = d.schema.toList ++ [d.name] := by
  unfold nameTokens
  cases d.schema <;> rfl

theorem filterMap_text?_nameTokens : d.nameTokens.filterMap Token.text? = [] := by
  unfold nameTokens
  cases d.schema <;> rfl

theorem filterMap_text?_labelTokens : d.labelTokens.filterMap Token.text? = d.labels := by
  unfold labelTokens
  induction d.labels with
  | nil => rfl
  | cons l labels ih =>
    cases labels with
    | nil => rfl
    | cons l' labels => exact congrArg (l :: ·) ih

theorem filterMap_name?_labelTokens : d.labelTokens.filterMap Token.name? = [] := by
  unfold labelTokens
  induction d.labels with
  | nil => rfl
  | cons l labels ih =>
    cases labels with
    | nil => rfl
    | cons l' labels => exact ih

/-- The names of a statement are those of the type. -/
theorem filterMap_name?_statementTokens :
    d.statementTokens.filterMap Token.name? = d.schema.toList ++ [d.name] := by
  simp [statementTokens, List.filterMap_cons, filterMap_name?_nameTokens,
    filterMap_name?_labelTokens, Token.name?]

/-- The text values of a statement are the labels in order. -/
theorem filterMap_text?_statementTokens : d.statementTokens.filterMap Token.text? = d.labels := by
  simp [statementTokens, List.filterMap_cons, filterMap_text?_nameTokens,
    filterMap_text?_labelTokens, Token.text?]

end EnumDecl

theorem eq_of_toList_append_eq {α : Type} {a b : Option α} {x y : α}
    (h : a.toList ++ [x] = b.toList ++ [y]) : a = b ∧ x = y := by
  obtain ⟨hfirst, hlast⟩ := List.append_inj' h rfl
  refine ⟨?_, List.singleton_inj.mp hlast⟩
  cases a <;> cases b <;> simp_all

/-- A statement and a qualified name are read as what they are made of and nothing else, whatever
that holds; so no two types have the same statement, and no two names the same text. -/
theorem createStatement_readsBack (d e : EnumDecl) :
    tokens? d.createStatement = some d.statementTokens ∧
      tokens? d.qualifiedName = some d.nameTokens ∧
      (d.createStatement = e.createStatement ↔ d = e) ∧
      (d.qualifiedName = e.qualifiedName ↔ d.schema = e.schema ∧ d.name = e.name) := by
  refine ⟨tokens?_createStatement d, tokens?_qualifiedName d, ⟨fun h => ?_, congrArg _⟩,
    fun h => ?_, fun h => ?_⟩
  · have htokens : d.statementTokens = e.statementTokens := by
      rw [← Option.some.injEq, ← tokens?_createStatement, ← tokens?_createStatement, h]
    obtain ⟨hschema, hname⟩ := eq_of_toList_append_eq (d.filterMap_name?_statementTokens ▸
      e.filterMap_name?_statementTokens ▸ congrArg (List.filterMap Token.name?) htokens)
    have hlabels : d.labels = e.labels := by
      rw [← d.filterMap_text?_statementTokens, htokens, e.filterMap_text?_statementTokens]
    cases d
    cases e
    simp_all
  · have htokens : d.nameTokens = e.nameTokens := by
      rw [← Option.some.injEq, ← tokens?_qualifiedName, ← tokens?_qualifiedName, h]
    refine eq_of_toList_append_eq ?_
    rw [← d.filterMap_name?_nameTokens, htokens, e.filterMap_name?_nameTokens]
  · unfold qualifiedName
    rw [h.1, h.2]

end EnumCatalog.Sql
