/-!
# Reading SQL

The tokens of a statement, as a database reads them. A name in double quotes and a text value in
single quotes end at the first quote that is not doubled, and a doubled quote within them stands for
one. Nothing else within quotes has a meaning, so every other rule is about what stands outside: runs
of word characters are words, blanks part tokens, and any other character is a token by itself.

Reading fails only where a quote is never closed.
-/

set_option autoImplicit false

namespace EnumCatalog.Sql

inductive Token where
  /-- A word without quotes. -/
  | word (s : String)
  /-- A name in double quotes. -/
  | name (s : String)
  /-- A text value in single quotes. -/
  | text (s : String)
  | mark (c : Char)
  deriving DecidableEq, Repr

/-- What is read after an opening quote: the text up to the first quote that is not doubled, and what
follows that quote. -/
def readQuoted (quote : Char) : List Char → Option (List Char × List Char)
  | [] => none
  | [c] => if c = quote then some ([], []) else none
  | c :: d :: rest =>
    if c = quote then
      if d = quote then (readQuoted quote rest).map fun r => (quote :: r.1, r.2)
      else some ([], d :: rest)
    else (readQuoted quote (d :: rest)).map fun r => (c :: r.1, r.2)

/-- What follows a closing quote is shorter than what was read. -/
theorem length_of_readQuoted {quote : Char} {cs s rest : List Char}
    (h : readQuoted quote cs = some (s, rest)) : rest.length < cs.length := by
  induction cs using readQuoted.induct quote generalizing s rest with
  | case1 => cases h
  | case2 =>
    simp only [readQuoted, if_true, Option.some.injEq, Prod.mk.injEq] at h
    simp [← h.2]
  | case3 c hc => simp [readQuoted, hc] at h
  | case4 more ih =>
    simp only [readQuoted, if_true, Option.map_eq_some_iff, Prod.mk.injEq] at h
    obtain ⟨⟨s', rest'⟩, hread, -, rfl⟩ := h
    have hlt := ih hread
    simp only [List.length_cons]
    omega
  | case5 d more hd =>
    simp only [readQuoted, if_true, if_neg hd, Option.some.injEq, Prod.mk.injEq] at h
    simp [← h.2]
  | case6 c d more hc ih =>
    simp only [readQuoted, if_neg hc, Option.map_eq_some_iff, Prod.mk.injEq] at h
    obtain ⟨⟨s', rest'⟩, hread, -, rfl⟩ := h
    have hlt := ih hread
    simp only [List.length_cons] at hlt ⊢
    omega

/-- Whether a character is part of a word. -/
def isWordChar (c : Char) : Bool := c.isAlphanum || c == '_' || c == '$'

def isBlank (c : Char) : Bool := c == ' ' || c == '\t' || c == '\n' || c == '\r' || c == '\x0c'

/-- The tokens of a text. -/
def tokensOf? : List Char → Option (List Token)
  | [] => some []
  | c :: rest =>
    if c = '"' then
      match h : readQuoted '"' rest with
      | some (s, rest') => (tokensOf? rest').map (.name (String.ofList s) :: ·)
      | none => none
    else if c = '\'' then
      match h : readQuoted '\'' rest with
      | some (s, rest') => (tokensOf? rest').map (.text (String.ofList s) :: ·)
      | none => none
    else if isBlank c then tokensOf? rest
    else if isWordChar c then
      (tokensOf? (rest.dropWhile isWordChar)).map
        (.word (String.ofList (c :: rest.takeWhile isWordChar)) :: ·)
    else (tokensOf? rest).map (.mark c :: ·)
  termination_by cs => cs.length
  decreasing_by
    · exact Nat.lt_succ_of_lt (length_of_readQuoted h)
    · exact Nat.lt_succ_of_lt (length_of_readQuoted h)
    · exact Nat.lt_succ_self _
    · exact Nat.lt_succ_of_le (List.dropWhile_sublist isWordChar).length_le
    · exact Nat.lt_succ_self _

/-- The tokens of a statement; none if a quote is not closed. -/
def tokens? (statement : String) : Option (List Token) := tokensOf? statement.toList

end EnumCatalog.Sql
