import EnumCatalog.Proofs.Tagging

/-!
# What a tag is refused for

An expansion asks a number of things of a tag and of the item that it is on, one after the other:
first of the arguments, from left to right, then of the item (`checks`). It succeeds if all of them
are so, and otherwise its error is that of the first that is not
(`Expansion.ofTokens_answers`). What is asked of the arguments is said of the pieces between the
commas, without a reader.

A check after one that fails may be about something that is not there. It is never reached.
-/

set_option autoImplicit false

namespace EnumCatalog

namespace Expansion

open Syntax (Enum Fragment Item Path Reader atOp)
open Syntax.Reader

/-! ## 1. Checks -/

/-- Something that is asked, and the error where it is not so. -/
structure Check where
  holds : Bool
  error : Error

/-- The error of the first check that fails. -/
def refusal (cs : List Check) : Option Error := (cs.find? fun c => !c.holds).map (·.error)

section

variable {c : Check} {cs ds : List Check}

theorem refusal_cons_eq_some_iff {e : Error} : refusal (c :: cs) = some e ↔
    (c.holds = false ∧ c.error = e) ∨ (c.holds = true ∧ refusal cs = some e) := by
  unfold refusal
  cases h : c.holds <;> simp [h]

theorem refusal_append (cs ds : List Check) :
    refusal (cs ++ ds) = (refusal cs).or (refusal ds) := by
  unfold refusal
  rw [List.find?_append]
  cases cs.find? (fun c => !c.holds) with
  | none => rfl
  | some c => rfl

theorem refusal_eq_none_iff : refusal cs = none ↔ ∀ c ∈ cs, c.holds = true := by
  simp [refusal]

end

/-! ## 2. What is asked of an argument -/

/-- The pieces between the commas. A comma may also follow the last. -/
def pieces : List Token → List (List Token)
  | [] => []
  | .punct ',' _ :: ts => [] :: pieces ts
  | t :: ts =>
    match pieces ts with
    | [] => [[t]]
    | s :: ss => (t :: s) :: ss

/-- Whether there is a name after a double colon, wherever a double colon is ahead. -/
def goesOnWithNames : List Token → Bool
  | .punct ':' true :: .punct ':' _ :: .ident _ :: ts => goesOnWithNames ts
  | .punct ':' true :: .punct ':' _ :: _ => false
  | _ => true

/-- Whether the tokens open with a path. -/
def opensPath : List Token → Bool
  | .ident _ :: ts => goesOnWithNames ts
  | .punct ':' true :: .punct ':' _ :: .ident _ :: ts => goesOnWithNames ts
  | _ => false

/-- Whether the path that the tokens open with is the name of the argument. -/
def opensAlias : List Token → Bool
  | .ident _ :: .punct ':' true :: .punct ':' _ :: _ => false
  | .ident i :: _ => i.isWord Marker.aliasArgument
  | _ => false

/-- The text that is given to a name. -/
def givenText? : List Token → Option String
  | .ident _ :: .punct '=' _ :: .literal text :: _ => Literal.stringValue? text
  | _ => none

/-- What is asked of an argument: a path, which is the name of the argument, and a text, which is
not empty; that none was given before; and that nothing follows. -/
def argumentChecks (repeated : Bool) (s : List Token) : List Check := [
  ⟨opensPath s, .malformed⟩,
  ⟨opensAlias s, .unsupportedArgument⟩,
  ⟨(givenText? s).isSome, .malformed⟩,
  ⟨givenText? s != some "", .emptyAlias⟩,
  ⟨!repeated, .repeatedAlias⟩,
  ⟨s.length == 3, .malformed⟩]

/-- What is asked of arguments, from left to right. -/
def argumentsChecks (repeated : Bool) : List (List Token) → List Check
  | [] => []
  | s :: ss => argumentChecks repeated s ++ argumentsChecks true ss

/-! ## 3. Pieces -/

/-- Nothing follows, or a comma and whatever comes after it. -/
def AtPieceEnd (ts : List Token) : Prop := ts = [] ∨ ∃ j rest, ts = .punct ',' j :: rest

theorem pieces_cons_of_ne {t : Token} (ht : ∀ j, t ≠ .punct ',' j) {ts s : List Token}
    {ss : List (List Token)} (h : pieces ts = s :: ss) : pieces (t :: ts) = (t :: s) :: ss := by
  rw [pieces.eq_3 t ts fun j => ht j, h]

theorem pieces_singleton_of_ne {t : Token} (ht : ∀ j, t ≠ .punct ',' j) : pieces [t] = [[t]] := by
  rw [pieces.eq_3 t [] fun j => ht j, pieces]

/-- The first piece goes up to a comma or to the end. -/
theorem exists_first_piece {ts : List Token} (h : ts ≠ []) :
    ∃ s tail, ts = s ++ tail ∧ (∀ t ∈ s, ∀ j, t ≠ .punct ',' j) ∧ AtPieceEnd tail ∧
      pieces ts = s :: pieces tail.tail := by
  induction ts with
  | nil => exact absurd rfl h
  | cons t ts ih =>
    by_cases ht : ∃ j, t = .punct ',' j
    · obtain ⟨j, rfl⟩ := ht
      exact ⟨[], _, rfl, by simp, .inr ⟨j, ts, rfl⟩, rfl⟩
    · have hne : ∀ j, t ≠ .punct ',' j := fun j heq => ht ⟨j, heq⟩
      by_cases hts : ts = []
      · subst hts
        exact ⟨[t], [], rfl, by simpa using hne, .inl rfl, pieces_singleton_of_ne hne⟩
      · obtain ⟨s, tail, heq, hs, hend, hpieces⟩ := ih hts
        refine ⟨t :: s, tail, congrArg (t :: ·) heq, ?_, hend, pieces_cons_of_ne hne hpieces⟩
        exact List.forall_mem_cons.mpr ⟨hne, hs⟩

section

variable {tail : List Token} (h : AtPieceEnd tail)

include h

/-- What is no comma and stands in front stands in the piece. -/
theorem AtPieceEnd.exists_cons {t : Token} (ht : ∀ j, t ≠ .punct ',' j) {s ts : List Token}
    (heq : s ++ tail = t :: ts) : ∃ ts', s = t :: ts' ∧ ts = ts' ++ tail := by
  cases s with
  | nil =>
    rcases h with rfl | ⟨j, rest, rfl⟩
    · cases heq
    · exact absurd (List.cons.inj heq).1.symm (ht j)
  | cons t' s =>
    obtain ⟨rfl, rfl⟩ := List.cons.inj heq
    exact ⟨s, rfl, rfl⟩

theorem AtPieceEnd.exists_colons {s ts : List Token} {j : Bool}
    (heq : s ++ tail = .punct ':' true :: .punct ':' j :: ts) :
    ∃ ts', s = .punct ':' true :: .punct ':' j :: ts' ∧ ts = ts' ++ tail := by
  obtain ⟨s₁, rfl, h₁⟩ := h.exists_cons (by simp) heq
  obtain ⟨s₂, rfl, h₂⟩ := h.exists_cons (by simp) h₁.symm
  exact ⟨s₂, rfl, h₂⟩

theorem goesOnWithNames_append (s : List Token) :
    goesOnWithNames (s ++ tail) = goesOnWithNames s := by
  fun_induction goesOnWithNames s with
  | case1 j i ts ih => exact ih
  | case2 j ts hne =>
    refine goesOnWithNames.eq_2 j (ts ++ tail) fun i rest heq => ?_
    obtain ⟨ts', hts, -⟩ := h.exists_cons (by simp) heq
    exact hne i ts' hts
  | case3 s h₁ h₂ =>
    have hcolons : ∀ j rest, s ++ tail = .punct ':' true :: .punct ':' j :: rest → False := by
      intro j rest heq
      obtain ⟨ts', hs, -⟩ := h.exists_colons heq
      exact h₂ j ts' hs
    exact goesOnWithNames.eq_3 _ (fun j i rest => hcolons j _) hcolons

theorem opensPath_append (s : List Token) : opensPath (s ++ tail) = opensPath s := by
  fun_cases opensPath s with
  | case1 i ts => exact goesOnWithNames_append h ts
  | case2 j i ts => exact goesOnWithNames_append h ts
  | case3 s h₁ h₂ =>
    refine opensPath.eq_3 _ (fun i rest heq => ?_) fun j i rest heq => ?_
    · obtain ⟨ts', hs, -⟩ := h.exists_cons (by simp) heq
      exact h₁ i ts' hs
    · obtain ⟨ts', rfl, hrest⟩ := h.exists_colons heq
      obtain ⟨ts'', rfl, -⟩ := h.exists_cons (by simp) hrest.symm
      exact h₂ j i ts'' rfl

theorem opensAlias_append (s : List Token) : opensAlias (s ++ tail) = opensAlias s := by
  fun_cases opensAlias s with
  | case1 i j ts => rfl
  | case2 i ts hne =>
    refine opensAlias.eq_2 i (ts ++ tail) fun j rest heq => ?_
    obtain ⟨ts', hts, -⟩ := h.exists_colons heq
    exact hne j ts' hts
  | case3 s h₁ h₂ =>
    refine opensAlias.eq_3 _ (fun i j rest heq => ?_) fun i rest heq => ?_
    all_goals
      obtain ⟨ts', hs, -⟩ := h.exists_cons (by simp) heq
      exact h₂ i ts' hs

theorem givenText?_append (s : List Token) : givenText? (s ++ tail) = givenText? s := by
  fun_cases givenText? s with
  | case1 i j text ts => rfl
  | case2 s hne =>
    refine givenText?.eq_2 _ fun i j text rest heq => ?_
    obtain ⟨s₁, rfl, h₁⟩ := h.exists_cons (by simp) heq
    obtain ⟨s₂, rfl, h₂⟩ := h.exists_cons (by simp) h₁.symm
    obtain ⟨s₃, rfl, -⟩ := h.exists_cons (by simp) h₂.symm
    exact hne i j text s₃ rfl

end

/-! ## 4. Reading an argument -/

section

variable {ts rest : List Token}

/-- One more name after a double colon. -/
def anotherName : Reader (Option Ident) := do
  if ← op? "::" then return some (← anyIdent) else return none

theorem reads_anotherName (j : Bool) (i : Ident) (ts : List Token) :
    Reads anotherName (.punct ':' true :: .punct ':' j :: .ident i :: ts) ts (some i)
      (.plain (Token.operator [':', ':']) ++ .plain [.ident i]) :=
  (reads_op?_of_at rfl rfl).bind ((reads_anyIdent i ts).before (reads_pure (some i) ts))

theorem reads_anotherName_of_not (h : atOp "::" ts = false) :
    Reads anotherName ts ts none .empty :=
  (reads_op?_of_not h).andThen (reads_pure none ts)

theorem fails_anyIdent (h : ∀ i rest, ts ≠ .ident i :: rest) : Fails anyIdent ts := by
  intro printed mentioned
  cases ts with
  | nil => rfl
  | cons t ts =>
    cases t with
    | ident i => exact absurd rfl (h i ts)
    | _ => rfl

theorem fails_anotherName (j : Bool) (h : ∀ i rest, ts ≠ .ident i :: rest) :
    Fails anotherName (.punct ':' true :: .punct ':' j :: ts) :=
  Reads.fails (reads_op?_of_at rfl rfl) ((fails_anyIdent h).bind _)

theorem not_atOp_colons (h : ∀ j rest, ts ≠ .punct ':' true :: .punct ':' j :: rest) :
    atOp "::" ts = false := by
  by_cases hfirst : ∃ rest, ts = .punct ':' true :: rest
  · obtain ⟨rest, rfl⟩ := hfirst
    by_cases hsecond : ∃ j rest', rest = .punct ':' j :: rest'
    · obtain ⟨j, rest', rfl⟩ := hsecond
      exact absurd rfl (h j rest')
    · match rest with
      | .punct c j :: rest' =>
        have hne : ':' ≠ c := fun heq => hsecond ⟨j, rest', heq ▸ rfl⟩
        exact Syntax.atChars_of_ne hne [] j rest'
      | [] | .ident _ :: _ | .lifetime _ :: _ | .literal _ :: _ | .group _ _ :: _ => rfl
  · match ts with
    | .punct c true :: rest =>
      have hne : ':' ≠ c := fun heq => hfirst ⟨rest, heq ▸ rfl⟩
      exact Syntax.atChars_of_ne hne [':'] true rest
    | [] | .punct _ false :: _ | .ident _ :: _ | .lifetime _ :: _ | .literal _ :: _
    | .group _ _ :: _ => rfl

/-- Names are collected as long as a double colon is ahead. -/
theorem exists_collects_names (h : goesOnWithNames ts = true) :
    ∃ names rest f, Collects anotherName ts rest names f ∧
      (names = [] ∧ rest = ts ∧ atOp "::" ts = false ∨ names ≠ [] ∧ atOp "::" ts = true) := by
  fun_induction goesOnWithNames ts with
  | case1 j i ts ih =>
    obtain ⟨names, rest, f, hcollects, -⟩ := ih h
    exact ⟨i :: names, rest, _, .round (reads_anotherName j i ts)
      (by simp only [List.length_cons]; omega) hcollects, .inr ⟨List.cons_ne_nil i names, rfl⟩⟩
  | case2 j ts hne => cases h
  | case3 ts h₁ h₂ =>
    have hnot := not_atOp_colons fun j rest heq => h₂ j rest heq
    exact ⟨[], ts, _, .stop (reads_anotherName_of_not hnot), .inl ⟨rfl, rfl, hnot⟩⟩

theorem fails_collect_names (h : goesOnWithNames ts = false) : Fails (collect anotherName) ts := by
  refine (reads_ahead ts).fails ?_
  generalize ts.length + 1 = n
  fun_induction goesOnWithNames ts generalizing n with
  | case1 j i ts ih =>
    cases n with
    | zero => exact fun _ _ => rfl
    | succ n => exact (reads_anotherName j i ts).fails ((ih h n).bind _)
  | case2 j ts hne =>
    cases n with
    | zero => exact fun _ _ => rfl
    | succ n => exact (fails_anotherName j hne).bind _
  | case3 ts h₁ h₂ => cases h

/-- The path of an argument, from whether a double colon stands in front on. -/
def pathAfter (leading : Bool) : Reader Path := do
  let first ← anyIdent
  let others ← collect anotherName
  return ⟨leading, (first :: others).map (⟨·, none⟩)⟩

theorem argumentName_eq : argumentName = (do pathAfter (← op? "::")) := rfl

theorem fails_argumentName (h : opensPath ts = false) : Fails argumentName ts := by
  rw [argumentName_eq]
  fun_cases opensPath ts with
  | case1 i ts =>
    refine Reads.fails (reads_op?_of_not rfl) ((reads_anyIdent i ts).fails ?_)
    exact (fails_collect_names h).bind _
  | case2 j i ts =>
    refine Reads.fails (reads_op?_of_at rfl rfl) ((reads_anyIdent i ts).fails ?_)
    exact (fails_collect_names h).bind _
  | case3 ts h₁ h₂ =>
    by_cases hcolons : ∃ j rest, ts = .punct ':' true :: .punct ':' j :: rest
    · obtain ⟨j, rest, rfl⟩ := hcolons
      refine Reads.fails (reads_op?_of_at rfl rfl) ((fails_anyIdent fun i rest' heq => ?_).bind _)
      exact h₂ j i rest' (by rw [← heq]; rfl)
    · have hnot := not_atOp_colons fun j rest heq => hcolons ⟨j, rest, heq⟩
      exact Reads.fails (reads_op?_of_not hnot) ((fails_anyIdent h₁).bind _)

theorem exists_reads_pathAfter (leading : Bool) (i : Ident) (h : goesOnWithNames ts = true) :
    ∃ names rest f,
      Reads (pathAfter leading) (.ident i :: ts) rest ⟨leading, (i :: names).map (⟨·, none⟩)⟩ f ∧
      (names = [] ∧ rest = ts ∧ atOp "::" ts = false ∨ names ≠ [] ∧ atOp "::" ts = true) := by
  obtain ⟨names, rest, f, hcollects, hnames⟩ := exists_collects_names h
  exact ⟨names, rest, _, (reads_anyIdent i ts).bind (hcollects.reads.before (reads_pure _ rest)),
    hnames⟩

theorem opensAlias_cons (i : Ident) (h : atOp "::" ts = false) :
    opensAlias (.ident i :: ts) = i.isWord Marker.aliasArgument := by
  refine opensAlias.eq_2 i ts fun j rest heq => ?_
  rw [heq] at h
  cases h

theorem opensAlias_cons_of_atOp (i : Ident) (h : atOp "::" ts = true) :
    opensAlias (.ident i :: ts) = false := by
  by_cases hcolons : ∃ j rest, ts = .punct ':' true :: .punct ':' j :: rest
  · obtain ⟨j, rest, rfl⟩ := hcolons
    rfl
  · rw [not_atOp_colons fun j rest heq => hcolons ⟨j, rest, heq⟩] at h
    cases h

/-- The path that is read is the argument's name if the tokens say so. -/
theorem exists_reads_argumentName (h : opensPath ts = true) :
    ∃ p rest f, Reads argumentName ts rest p f ∧ p.isWord Marker.aliasArgument = opensAlias ts ∧
      (opensAlias ts = true → ∃ i, ts = .ident i :: rest) := by
  rw [argumentName_eq]
  fun_cases opensPath ts with
  | case1 i ts =>
    obtain ⟨names, rest, f, hreads, hnames⟩ := exists_reads_pathAfter false i h
    refine ⟨_, rest, _, (reads_op?_of_not rfl).andThen hreads, ?_⟩
    rcases hnames with ⟨rfl, rfl, hnot⟩ | ⟨hne, hcolons⟩
    · exact ⟨(opensAlias_cons i hnot).symm, fun _ => ⟨i, rfl⟩⟩
    · rw [opensAlias_cons_of_atOp i hcolons]
      refine ⟨?_, fun halias => by cases halias⟩
      cases names with
      | nil => exact absurd rfl hne
      | cons n names => rfl
  | case2 j i ts =>
    obtain ⟨names, rest, f, hreads, -⟩ := exists_reads_pathAfter true i h
    exact ⟨_, rest, _, (reads_op?_of_at rfl rfl).bind hreads, rfl, fun halias => by cases halias⟩
  | case3 ts h₁ h₂ =>
    rw [opensPath.eq_3 ts h₁ h₂] at h
    cases h

variable {given : Option String}

theorem argument_of_not_opensPath (h : opensPath ts = false) :
    argument given ts = .error .malformed := by
  have hrun : StateT.run argumentName (start ts) = none := fails_argumentName h [] []
  unfold argument
  rw [hrun]

theorem argument_of_not_opensAlias (hpath : opensPath ts = true) (halias : opensAlias ts = false) :
    argument given ts = .error .unsupportedArgument := by
  obtain ⟨p, rest, f, hreads, hword, -⟩ := exists_reads_argumentName hpath
  have hrun : StateT.run argumentName (start ts) = some (p, _) := hreads [] []
  unfold argument
  rw [hrun]
  simp only [hword, halias, Bool.not_false, if_true]

/-- What is left to do after the argument's name. -/
theorem exists_argument_eq (hpath : opensPath ts = true) (halias : opensAlias ts = true) :
    ∃ i rest, ts = .ident i :: rest ∧ ∀ given, argument given ts =
      match StateT.run argumentValue (start rest) with
      | none => .error .malformed
      | some (f, c) =>
        match f.tokens, f.stringValue? with
        | [.literal text], some value =>
          if value.isEmpty then .error .emptyAlias
          else if given.isSome then .error .repeatedAlias
          else .ok (text, c.rest)
        | _, _ => .error .malformed := by
  obtain ⟨p, rest, f, hreads, hword, hident⟩ := exists_reads_argumentName hpath
  obtain ⟨i, hts⟩ := hident halias
  refine ⟨i, rest, hts, fun given => ?_⟩
  have hrun : StateT.run argumentName (start ts) = some (p, _) := hreads [] []
  have hnamed : ¬(!p.isWord Marker.aliasArgument) = true := by simp [hword, halias]
  unfold argument
  rw [hrun]
  exact if_neg hnamed

theorem argument_of_givenText?_eq_none (hpath : opensPath ts = true) (halias : opensAlias ts = true)
    (htext : givenText? ts = none) : argument given ts = .error .malformed := by
  obtain ⟨i, rest, rfl, hargument⟩ := exists_argument_eq hpath halias
  rw [hargument]
  split
  · rfl
  · next f c hvalue =>
    split
    · next text v htokens hv =>
      have hstring : Literal.stringValue? text = some v := by
        unfold Fragment.stringValue? at hv
        rw [htokens] at hv
        exact hv
      obtain ⟨j, rfl⟩ := argumentValue_eq_some hvalue htokens hstring
      rw [show givenText? _ = Literal.stringValue? text from rfl, hstring] at htext
      cases htext
    · rfl

theorem reads_argumentValue (j : Bool) (text : String) (rest : List Token) :
    Reads argumentValue (.punct '=' j :: .literal text :: rest) rest ⟨[.literal text], []⟩
      (.plain (Token.operator ['='])) := by
  refine Reads.before (reads_op rfl rfl) ?_
  exact (reads_literal text rest).captured.andThen (reads_pure _ rest)

theorem exists_of_givenText? {v : String} (h : givenText? ts = some v) :
    ∃ i j text rest, ts = .ident i :: .punct '=' j :: .literal text :: rest ∧
      Literal.stringValue? text = some v := by
  fun_cases givenText? ts with
  | case1 i j text rest => exact ⟨i, j, text, rest, rfl, h⟩
  | case2 ts hne =>
    rw [givenText?.eq_2 ts hne] at h
    cases h

theorem opensAlias_cons_equals (i : Ident) (j : Bool) :
    opensAlias (.ident i :: .punct '=' j :: rest) = i.isWord Marker.aliasArgument :=
  opensAlias_cons i (Syntax.atChars_of_ne (by decide) [':'] j rest)

theorem exists_argument_eq_of_givenText? {v : String} (hpath : opensPath ts = true)
    (halias : opensAlias ts = true) (htext : givenText? ts = some v) :
    ∃ i j text rest, ts = .ident i :: .punct '=' j :: .literal text :: rest ∧
      ∀ given, argument given ts =
        if v.isEmpty then .error .emptyAlias
        else if given.isSome then .error .repeatedAlias
        else .ok (text, rest) := by
  obtain ⟨i, j, text, rest, hts, hv⟩ := exists_of_givenText? htext
  obtain ⟨i', rest', hts', hargument⟩ := exists_argument_eq hpath halias
  refine ⟨i, j, text, rest, hts, fun given => ?_⟩
  obtain ⟨-, rfl⟩ := List.cons.inj (hts.symm.trans hts')
  have hrun : StateT.run argumentValue (start (.punct '=' j :: .literal text :: rest)) =
      some (⟨[.literal text], []⟩, _) := reads_argumentValue j text rest [] []
  rw [hargument, hrun]
  simp only [show Fragment.stringValue? ⟨[.literal text], []⟩ = some v from hv]

end

/-! ## 5. All arguments -/

section

variable {s tail : List Token} {given : Option String} {e : Error} {n : Nat}

theorem argumentsWithin_of_error {ts : List Token} (h : argument given ts = .error e) :
    argumentsWithin (n + 1) given ts = .error e := by
  rw [argumentsWithin, h]

theorem argumentsWithin_of_junk {ts rest : List Token} {t : Token} {text : String}
    (h : argument given ts = .ok (text, t :: rest)) (ht : ∀ j, t ≠ .punct ',' j) :
    argumentsWithin (n + 1) given ts = .error .malformed := by
  rw [argumentsWithin, h]
  split
  · next heq => cases heq
  · next heq => cases heq
  · next heq => cases heq; exact absurd rfl (ht _)
  · next heq => cases heq; exact absurd rfl (ht _)
  · rfl

theorem argumentsWithin_of_comma {ts rest : List Token} {j : Bool} {text : String}
    (h : argument given ts = .ok (text, .punct ',' j :: rest)) (hrest : rest ≠ []) :
    argumentsWithin (n + 1) given ts = argumentsWithin n (some text) rest := by
  rw [argumentsWithin, h]
  cases rest with
  | nil => exact absurd rfl hrest
  | cons t rest => rfl

/-- An argument up to the end of its piece. -/
theorem exists_argument_append {v : String} (htail : AtPieceEnd tail) (hpath : opensPath s = true)
    (halias : opensAlias s = true) (htext : givenText? s = some v) :
    ∃ i j text rest, s = .ident i :: .punct '=' j :: .literal text :: rest ∧
      Literal.stringValue? text = some v ∧
      ∀ given, argument given (s ++ tail) =
        if v.isEmpty then .error .emptyAlias
        else if given.isSome then .error .repeatedAlias
        else .ok (text, rest ++ tail) := by
  obtain ⟨i, j, text, rest, rfl, hv⟩ := exists_of_givenText? htext
  rw [← opensPath_append htail] at hpath
  rw [← opensAlias_append htail] at halias
  rw [← givenText?_append htail] at htext
  obtain ⟨i', j', text', rest', heq, hargument⟩ :=
    exists_argument_eq_of_givenText? hpath halias htext
  cases heq
  exact ⟨i, j, text, rest, rfl, hv, hargument⟩

/-- An argument is refused for the first thing that is asked of its piece and is not so. -/
theorem argumentsWithin_of_refusal (hs : ∀ t ∈ s, ∀ j, t ≠ .punct ',' j) (htail : AtPieceEnd tail)
    (h : refusal (argumentChecks given.isSome s) = some e) :
    argumentsWithin (n + 1) given (s ++ tail) = .error e := by
  simp only [argumentChecks, refusal_cons_eq_some_iff] at h
  -- The checks are made in the order in which the argument is read.
  rcases h with ⟨hpath, rfl⟩ | ⟨hpath, ⟨halias, rfl⟩ | ⟨halias, ⟨htext, rfl⟩ | ⟨htext, h⟩⟩⟩
  · rw [← opensPath_append htail] at hpath
    exact argumentsWithin_of_error (argument_of_not_opensPath hpath)
  · rw [← opensPath_append htail] at hpath
    rw [← opensAlias_append htail] at halias
    exact argumentsWithin_of_error (argument_of_not_opensAlias hpath halias)
  · rw [← opensPath_append htail] at hpath
    rw [← opensAlias_append htail] at halias
    rw [Option.isSome_eq_false_iff, Option.isNone_iff_eq_none, ← givenText?_append htail] at htext
    exact argumentsWithin_of_error (argument_of_givenText?_eq_none hpath halias htext)
  · obtain ⟨v, hv⟩ := Option.isSome_iff_exists.mp htext
    obtain ⟨i, j, text, rest, rfl, -, hargument⟩ := exists_argument_append htail hpath halias hv
    have hargument := hargument given
    rw [hv] at h
    rcases h with ⟨hempty, rfl⟩ | ⟨hempty, ⟨hgiven, rfl⟩ | ⟨hgiven, ⟨hlength, rfl⟩ | ⟨-, h⟩⟩⟩
    · obtain rfl : v = "" := by simpa using hempty
      exact argumentsWithin_of_error hargument
    · rw [if_neg (by simpa using hempty), if_pos (by simpa using hgiven)] at hargument
      exact argumentsWithin_of_error hargument
    · rw [if_neg (by simpa using hempty), if_neg (by simpa using hgiven)] at hargument
      cases rest with
      | nil => cases hlength
      | cons t rest => exact argumentsWithin_of_junk hargument (hs t (by simp))
    · cases h

/-- An argument of which everything is so that is asked. -/
theorem argument_of_refusal_eq_none (htail : AtPieceEnd tail)
    (h : refusal (argumentChecks given.isSome s) = none) :
    given = none ∧ ∃ text v, IsAliasArgument text (s ++ tail) tail ∧
      Literal.stringValue? text = some v ∧ v ≠ "" ∧ argument given (s ++ tail) = .ok (text, tail) := by
  simp only [argumentChecks, refusal_eq_none_iff, List.forall_mem_cons] at h
  obtain ⟨hpath, halias, htext, hempty, hgiven, hlength, -⟩ := h
  obtain ⟨v, hv⟩ := Option.isSome_iff_exists.mp htext
  obtain ⟨i, j, text, rest, rfl, hstring, hargument⟩ := exists_argument_append htail hpath halias hv
  obtain rfl : given = none := by simpa using hgiven
  obtain rfl : rest = [] := by simpa using hlength
  have hne : v ≠ "" := by simpa [hv] using hempty
  refine ⟨rfl, text, v, ⟨i, j, ?_, rfl⟩, hstring, hne, ?_⟩
  · rw [opensAlias_cons_equals] at halias
    exact halias
  · rw [hargument, if_neg (by simpa using hne), if_neg (by simp)]
    rfl

theorem pieces_eq_nil {ts : List Token} (h : pieces ts = []) : ts = [] := by
  by_contra hne
  obtain ⟨s, tail, -, -, -, hpieces⟩ := exists_first_piece hne
  rw [h] at hpieces
  cases hpieces

/-- Arguments are refused for the first thing that is asked of them and is not so. -/
theorem argumentsWithin_eq_error {ts : List Token} (hn : ts.length ≤ n)
    (h : refusal (argumentsChecks given.isSome (pieces ts)) = some e) :
    argumentsWithin n given ts = .error e := by
  -- Piece by piece between the commas: the first one that is refused decides.
  induction n generalizing ts given with
  | zero =>
    obtain rfl := List.length_eq_zero_iff.mp (Nat.le_zero.mp hn)
    cases h
  | succ n ih =>
    have hne : ts ≠ [] := by
      rintro rfl
      cases h
    obtain ⟨s, tail, rfl, hs, htail, hpieces⟩ := exists_first_piece hne
    rw [hpieces, argumentsChecks, refusal_append] at h
    cases hfirst : refusal (argumentChecks given.isSome s) with
    | some e' =>
      rw [hfirst] at h
      cases h
      exact argumentsWithin_of_refusal hs htail hfirst
    | none =>
      rw [hfirst, Option.none_or] at h
      obtain ⟨rfl, text, v, -, -, -, hargument⟩ := argument_of_refusal_eq_none htail hfirst
      rcases htail with rfl | ⟨j, rest, rfl⟩
      · cases h
      · have hrest : rest ≠ [] := by
          rintro rfl
          cases h
        rw [argumentsWithin_of_comma hargument hrest]
        refine ih ?_ h
        rw [List.length_append, List.length_cons] at hn
        omega

end

/-- What arguments may be, and the literal that they give as the database name: there are none, or
there is one, for the name of the argument, that is a text and not empty. A comma may follow it. -/
def IsArguments (args : List Token) (aliasName : Option String) : Prop :=
  (args = [] ∧ aliasName = none) ∨
    ∃ text v rest, aliasName = some text ∧ Literal.stringValue? text = some v ∧ v ≠ "" ∧
      IsAliasArgument text args rest ∧ (rest = [] ∨ ∃ j, rest = [.punct ',' j])

section

variable {args : List Token} {aliasName : Option String} {e : Error}

theorem exists_isArguments (h : refusal (argumentsChecks false (pieces args)) = none) :
    ∃ aliasName, IsArguments args aliasName := by
  by_cases hne : args = []
  · exact ⟨none, .inl ⟨hne, rfl⟩⟩
  · obtain ⟨s, tail, rfl, -, htail, hpieces⟩ := exists_first_piece hne
    rw [hpieces, argumentsChecks, refusal_append, Option.or_eq_none_iff] at h
    obtain ⟨hfirst, hothers⟩ := h
    have hfirst : refusal (argumentChecks (none : Option String).isSome s) = none := hfirst
    obtain ⟨-, text, v, hargument, hv, hempty, -⟩ := argument_of_refusal_eq_none htail hfirst
    refine ⟨some text, .inr ⟨text, v, tail, rfl, hv, hempty, hargument, ?_⟩⟩
    cases hmore : pieces tail.tail with
    | nil =>
      rcases htail with rfl | ⟨j, rest, rfl⟩
      · exact .inl rfl
      · exact .inr ⟨j, congrArg (.punct ',' j :: ·) (pieces_eq_nil hmore)⟩
    | cons s' ss =>
      -- A second argument would be one too many.
      rw [hmore, argumentsChecks, refusal_eq_none_iff] at hothers
      have hrepeated := hothers ⟨!true, .repeatedAlias⟩ (by simp [argumentChecks])
      cases hrepeated

theorem arguments_of_isArguments (h : IsArguments args aliasName) :
    arguments args = .ok aliasName := by
  rcases h with ⟨rfl, rfl⟩ | ⟨text, v, rest, rfl, hv, hempty, ⟨i, j, hi, rfl⟩, hrest⟩
  · rfl
  · have hargument : argument none (.ident i :: .punct '=' j :: .literal text :: rest) =
        .ok (text, rest) := by
      have hpath : opensPath (.ident i :: .punct '=' j :: .literal text :: rest) = true := rfl
      obtain ⟨i', j', text', rest', heq, hargument⟩ :=
        exists_argument_eq_of_givenText? hpath ((opensAlias_cons_equals i j).trans hi) hv
      cases heq
      rw [hargument, if_neg (by simpa using hempty), if_neg (by simp)]
    unfold arguments
    rw [if_neg (by simp), List.length_cons, argumentsWithin, hargument]
    rcases hrest with rfl | ⟨j', rfl⟩
    · rfl
    · rfl

theorem arguments_eq_error_iff :
    arguments args = .error e ↔ refusal (argumentsChecks false (pieces args)) = some e := by
  have herror : ∀ e, refusal (argumentsChecks false (pieces args)) = some e →
      arguments args = .error e := by
    intro e h
    unfold arguments
    split
    · next hempty =>
      rw [List.isEmpty_iff.mp hempty] at h
      cases h
    · exact argumentsWithin_eq_error (Nat.le_refl _) h
  refine ⟨fun h => ?_, herror e⟩
  cases hrefusal : refusal (argumentsChecks false (pieces args)) with
  | none =>
    obtain ⟨aliasName, harguments⟩ := exists_isArguments hrefusal
    rw [arguments_of_isArguments harguments] at h
    cases h
  | some e' =>
    rw [herror e' hrefusal] at h
    cases h
    rfl

theorem arguments_eq_ok_iff : arguments args = .ok aliasName ↔ IsArguments args aliasName := by
  refine ⟨fun h => ?_, arguments_of_isArguments⟩
  cases hrefusal : refusal (argumentsChecks false (pieces args)) with
  | none =>
    obtain ⟨aliasName', harguments⟩ := exists_isArguments hrefusal
    rw [arguments_of_isArguments harguments] at h
    cases h
    exact harguments
  | some e =>
    rw [arguments_eq_error_iff.mpr hrefusal] at h
    cases h

end

/-! ## 6. The item -/

/-- The enum that an item is. -/
def enum? : Item → Option Enum
  | .enum e => some e
  | _ => none

/-- What is asked of the item: that it is one, that it is an enum, that it is not generic, and that
no variant, one after the other, has fields. -/
def itemChecks (item : List Token) : List Check :=
  let i? := Item.ofTokens? item
  let e? := i?.bind enum?
  [⟨i?.isSome, .malformed⟩, ⟨e?.isSome, .notEnum⟩, ⟨!e?.any Enum.isGeneric, .generic⟩] ++
    (e?.elim [] Enum.variants).map fun v => ⟨v.fields.isUnit, .variantWithFields⟩

/-- All that is asked. -/
def checks (args item : List Token) : List Check :=
  argumentsChecks false (pieces args) ++ itemChecks item

/-- What can be tagged: an enum that is not generic, none of whose variants has fields. -/
structure IsTaggable (item : List Token) (e : Enum) : Prop where
  reads : Item.ofTokens? item = some (.enum e)
  notGeneric : e.isGeneric = false
  isUnit : ∀ v ∈ e.variants, v.fields.isUnit = true

section

variable {args item : List Token} {aliasName : Option String} {e : Enum} {err : Error}

theorem refusal_map {α : Type} (p : α → Bool) (err : Error) (as : List α) :
    refusal (as.map fun a => ⟨p a, err⟩) = if as.all p then none else some err := by
  induction as with
  | nil => rfl
  | cons a as ih =>
    cases h : p a with
    | true => rw [List.map_cons, List.all_cons, h, Bool.true_and, ← ih]; rfl
    | false => rw [List.map_cons, List.all_cons, h]; rfl

theorem itemChecks_of_enum (h : Item.ofTokens? item = some (.enum e)) :
    refusal (itemChecks item) = refusal (⟨!e.isGeneric, .generic⟩ ::
      e.variants.map fun v => ⟨v.fields.isUnit, .variantWithFields⟩) := by
  unfold itemChecks
  rw [h]
  rfl

theorem ofTokens_of_arguments {i : Item} (hargs : arguments args = .ok aliasName)
    (hitem : Item.ofTokens? item = some i) :
    ofTokens args item = (enumOf i).map fun e => ⟨e, aliasName⟩ := by
  unfold ofTokens
  rw [hargs, hitem]
  rfl

theorem enumOf_enum (e : Enum) : enumOf (.enum e) =
    (refusal (⟨!e.isGeneric, .generic⟩ ::
      e.variants.map fun v => ⟨v.fields.isUnit, .variantWithFields⟩)).elim (.ok e) .error := by
  cases hgeneric : e.isGeneric with
  | true => simp [enumOf, hgeneric, refusal]
  | false =>
    have hchecks : refusal (⟨!false, .generic⟩ ::
        e.variants.map fun v => ⟨v.fields.isUnit, .variantWithFields⟩) =
          if e.variants.all (·.fields.isUnit) then none else some .variantWithFields := by
      rw [← refusal_map]
      rfl
    rw [hchecks]
    cases hunit : e.variants.all (·.fields.isUnit) with
    | true => simp [enumOf, hgeneric, hunit]
    | false => simp [enumOf, hgeneric, hunit]

/-- An item is refused for the first thing that is asked of it and is not so. -/
theorem ofTokens_eq_error_of_item (hargs : arguments args = .ok aliasName)
    (h : refusal (itemChecks item) = some err) : ofTokens args item = .error err := by
  cases hitem : Item.ofTokens? item with
  | none =>
    rw [itemChecks, hitem] at h
    cases h
    unfold ofTokens
    rw [hargs, hitem]
    rfl
  | some i =>
    rw [ofTokens_of_arguments hargs hitem]
    cases i with
    | enum e =>
      rw [itemChecks_of_enum hitem] at h
      rw [enumOf_enum, h]
      rfl
    | _ =>
      rw [itemChecks, hitem] at h
      cases h
      rfl

theorem ofTokens_of_isTaggable (hargs : arguments args = .ok aliasName) (h : IsTaggable item e) :
    ofTokens args item = .ok ⟨e, aliasName⟩ := by
  have hchecks : refusal (⟨!e.isGeneric, .generic⟩ ::
      e.variants.map fun v => ⟨v.fields.isUnit, .variantWithFields⟩) = none := by
    rw [refusal_eq_none_iff, List.forall_mem_cons, List.forall_mem_map]
    exact ⟨by rw [h.notGeneric]; rfl, h.isUnit⟩
  rw [ofTokens_of_arguments hargs h.reads, enumOf_enum, hchecks]
  rfl

theorem exists_isTaggable (h : refusal (itemChecks item) = none) : ∃ e, IsTaggable item e := by
  cases hitem : Item.ofTokens? item with
  | none =>
    rw [itemChecks, hitem] at h
    cases h
  | some i =>
    cases i with
    | enum e =>
      rw [itemChecks_of_enum hitem, refusal_eq_none_iff, List.forall_mem_cons,
        List.forall_mem_map] at h
      exact ⟨e, hitem, by simpa using h.1, h.2⟩
    | _ =>
      rw [itemChecks, hitem] at h
      cases h

/-- Whatever fails first is what the error is about. -/
theorem ofTokens_eq_error_of_refusal (h : refusal (checks args item) = some err) :
    ofTokens args item = .error err := by
  rw [checks, refusal_append] at h
  cases hargs : arguments args with
  | error err' =>
    rw [arguments_eq_error_iff.mp hargs] at h
    cases h
    unfold ofTokens
    rw [hargs]
    rfl
  | ok aliasName =>
    cases hrefusal : refusal (argumentsChecks false (pieces args)) with
    | some err' =>
      rw [arguments_eq_error_iff.mpr hrefusal] at hargs
      cases hargs
    | none =>
      rw [hrefusal, Option.none_or] at h
      exact ofTokens_eq_error_of_item hargs h

theorem exists_of_refusal_eq_none (h : refusal (checks args item) = none) :
    ∃ x : Expansion, IsArguments args x.aliasName ∧ IsTaggable item x.enum := by
  rw [checks, refusal_append, Option.or_eq_none_iff] at h
  obtain ⟨aliasName, hargs⟩ := exists_isArguments h.1
  obtain ⟨e, hitem⟩ := exists_isTaggable h.2
  exact ⟨⟨e, aliasName⟩, hargs, hitem⟩

end

/-! ## 7. Answers -/

open Token (word) in
/-- An empty name is looked at before a repeated one, and both before what is unknown behind them. -/
example : refusal (argumentsChecks false (pieces [word "alias", mark '=', .literal "r#\"a\"#x",
    mark ',', word "alias", mark '=', .literal "\"\"", mark ',', word "schema"])) =
      some .emptyAlias := by decide +kernel

end Expansion

end EnumCatalog
