import EnumCatalog.Proofs.PathTypes

/-!
# Calls and statements

Values that end with a call: of a name, as in `Some(value)`, and of a method with a generic argument
in front of its values. Behind an operand the grammar asks round by round for one more thing to add
to it, so a call is a round of its own (`reads_trailers_one`).

A block is its statements one after the other (`Statements`). A statement that starts with a name is
told from a macro call, an item and a declaration by the token after the name.
-/

set_option autoImplicit false

namespace EnumCatalog.Syntax

open Reader

namespace Grammar

variable (g : Grammar) {ts mid rest : List Token} {f f' : Fragment} {i : Ident}

/-! ## 1. Calls -/

/-- One thing follows an atom and then nothing more. -/
theorem reads_trailers_one (h : Reads (g.trailerRound .other) ts rest (some ()) f)
    (hlt : rest.length < ts.length) (hrest : ClosedBy closers rest) :
    Reads (g.trailers .other) ts rest .other f := by
  have hcollects : Collects (g.trailerRound .other) ts rest [()] (f ++ .empty) :=
    .round h hlt (.stop ((endsExpr_of_closedBy hrest).reads_trailerRound g))
  rw [Fragment.append_empty] at hcollects
  exact hcollects.reads.before (reads_pure _ rest)

/-- The values of a call. -/
theorem reads_values {inner : List Token} {as : List (Unit × Bool)}
    (h : CommaList g.value inner as f) (ts : List Token) :
    Reads (discard (inGroup .paren (commaList g.value))) (.paren inner :: ts) ts ()
      (f.within .paren) := (h.reads.inGroup .paren ts).discard

theorem reads_trailers_values {inner : List Token} {as : List (Unit × Bool)}
    (h : CommaList g.value inner as f) (hrest : ClosedBy closers rest) :
    Reads (g.trailers .other) (.paren inner :: rest) rest .other (f.within .paren) := by
  refine g.reads_trailers_one ?_ (Nat.lt_succ_self _) hrest
  refine (reads_ahead _).andThen ?_
  exact (g.reads_values h rest).before (reads_pure _ rest)

/-- A name and the values it is called with. -/
theorem reads_value_call (hi : i.isName = true) {inner : List Token} {as : List (Unit × Bool)}
    (h : CommaList g.value inner as f) (hrest : ClosedBy closers rest) :
    Reads (rules (rules g)).value (.ident i :: .paren inner :: rest) rest ()
      (⟨[.ident i], [i.text]⟩ ++ f.within .paren) := by
  have hatom := reads_atom_name g hi (endsName_paren inner rest)
  exact reads_value g (opensOperand_of_opensWord trivial) hatom (g.reads_trailers_values h hrest) hrest

theorem reads_afterPoint (hi : i.isName = true) (j : Bool) {inner : List Token}
    {as : List (Unit × Bool)} {a : GenericArgs} (hat : atOp "::" ts = true)
    (hargs : Reads g.arguments ts (.paren inner :: rest) a f)
    (hvalues : CommaList g.value inner as f') :
    Reads g.afterPoint (.punct '.' j :: .ident i :: ts) rest ()
      (.plain [.punct '.' false] ++ (.plain [.ident i] ++ (f ++ f'.within .paren))) := by
  have hawait : atWord "await" (.ident i :: ts) = false :=
    Ident.not_isWord_of_isName hi (by decide)
  have hname : atName (.ident i :: ts) = true := hi
  have hmember : Reads member (.ident i :: ts) ts true (.plain [.ident i]) := by
    refine (reads_ahead _).andThen ?_
    rw [hname]
    exact (reads_name hi ts).discard.before (reads_pure true ts)
  refine (reads_op (by cases j <;> rfl) rfl).bind ?_
  refine (reads_ahead _).andThen ((reads_pure true _).andThen ?_)
  refine (reads_word?_of_not hawait).andThen ?_
  refine hmember.bind ((reads_sees (atOp "::") ts).andThen ?_)
  rw [hat]
  refine hargs.discard.bind ((reads_sees (atGroup .paren) _).andThen ?_)
  exact g.reads_values hvalues rest

theorem reads_trailers_method (hi : i.isName = true) (j : Bool) {inner : List Token}
    {as : List (Unit × Bool)} {a : GenericArgs} (hat : atOp "::" ts = true)
    (hargs : Reads g.arguments ts (.paren inner :: rest) a f)
    (hvalues : CommaList g.value inner as f') (hlt : rest.length < ts.length)
    (hrest : ClosedBy closers rest) :
    Reads (g.trailers .other) (.punct '.' j :: .ident i :: ts) rest .other
      (.plain [.punct '.' false] ++ (.plain [.ident i] ++ (f ++ f'.within .paren))) := by
  have hpoint : (atOp "." (.punct '.' j :: .ident i :: ts) &&
      !atOp ".." (.punct '.' j :: .ident i :: ts) && ExprShape.other != .range) = true := by
    cases j <;> rfl
  have hround : Reads (g.trailerRound .other) (.punct '.' j :: .ident i :: ts) rest (some ())
      (.plain [.punct '.' false] ++ (.plain [.ident i] ++ (f ++ f'.within .paren))) := by
    refine (reads_ahead _).andThen ?_
    rw [if_neg (by simp [atGroup]), if_pos hpoint]
    exact (g.reads_afterPoint hi j hat hargs hvalues).before (reads_pure _ rest)
  refine g.reads_trailers_one hround ?_ hrest
  simp only [List.length_cons]
  omega

/-! ## 2. Statements -/

/-- What is read early is no block, and no closure that starts with a word. -/
structure OpensEarly (ts : List Token) : Prop where
  sign : atOp "#" ts = false
  block : ∀ g, blockLike? g ts = none
  words : ∀ w ∈ ["for", "const", "try"], atWord w ts = false

theorem reads_early (hopens : OpensEarly ts)
    (hunary : Reads (g.anyUnary true) ts rest .other f) (hrest : EndsExpr rest) :
    Reads (rules (rules g)).early ts rest .other f := by
  refine (reads_outerAttrs_nil (rules g) hopens.sign).andThen ?_
  refine (reads_ahead _).andThen ?_
  simp only [hopens.words "for" (by decide), hopens.words "const" (by decide),
    hopens.words "try" (by decide), hopens.block, Bool.false_and, Bool.or_false, Bool.false_eq_true,
    if_false]
  exact hunary.before (hrest.reads_anyOperators g true .any)

theorem opensEarly_name (hi : i.isName = true) (ts : List Token) : OpensEarly (.ident i :: ts) where
  sign := rfl
  words w hw := Ident.not_isWord_of_isName hi <| by
    have hsub : ∀ w ∈ ["for", "const", "try"], w ∈ Ident.reservedWords := by decide
    exact hsub w hw
  block g := by
    have hword : ∀ w ∈ Ident.reservedWords, atWord w (.ident i :: ts) = false :=
      fun w hw => Ident.not_isWord_of_isName hi hw
    unfold blockLike?
    simp only [hword "if" (by decide), hword "while" (by decide), hword "for" (by decide),
      hword "loop" (by decide), hword "match" (by decide), hword "unsafe" (by decide),
      hword "const" (by decide), atGroup, atLifetime, Bool.false_eq_true, if_false]

theorem not_atItem (hi : i.isName = true) (hts : ClosedBy ['.', ';'] ts) :
    atItem (.ident i :: ts) = false := by
  have hword : ∀ w ∈ Ident.reservedWords, atWord w (.ident i :: ts) = false :=
    fun w hw => Ident.not_isWord_of_isName hi hw
  have hname : atName ts = false := by
    match ts, hts with
    | [], _ => rfl
    | .punct _ _ :: _, _ => rfl
  have hwords : atWordIn ["pub", "extern", "use", "fn", "mod", "type", "struct", "enum", "trait",
      "impl", "macro"] (.ident i :: ts) = false := by
    refine List.any_eq_false.mpr fun w hw => ?_
    have hsub : ∀ w ∈ ["pub", "extern", "use", "fn", "mod", "type", "struct", "enum", "trait",
        "impl", "macro"], w ∈ Ident.reservedWords := by decide
    rw [hword w (hsub w hw)]
    decide
  have hafter : atWordIn ["unsafe", "impl"] ts = false :=
    List.any_eq_false.mpr fun w _ => Bool.eq_false_iff.mp (hts.not_atWord w)
  unfold atItem
  simp only [hwords, hword "crate" (by decide), hword "static" (by decide),
    hword "const" (by decide), hword "unsafe" (by decide), hword "async" (by decide),
    List.tail_cons, hname, hts.not_atWord, hafter, Bool.false_and, Bool.and_false, Bool.or_false]

theorem macroStart_name (hi : i.isName = true) (hts : ClosedBy ['.', ';'] ts) :
    macroStart (.ident i :: ts) = .none := by
  have hread : Reads Path.readPlain (.ident i :: ts) ts _ _ :=
    NamePath.reads_readPlain (ofName i hi) (hts.not_atOp (by decide))
  unfold macroStart
  rw [show StateT.run Path.readPlain (start (.ident i :: ts)) = _ from hread [] []]
  simp [hts.not_atOp (s := "!") (by decide)]

/-- A statement that is an expression, with what follows the expression. -/
theorem reads_statement (hi : i.isName = true) (hts : ClosedBy ['.', ';'] ts) {hasSemi : Bool}
    (hunary : Reads (g.anyUnary true) (.ident i :: ts) mid .other f)
    (hmid : ClosedBy closers mid) (hsemi : Reads (op? ";") mid rest hasSemi f') :
    Reads (statement (rules (rules g))) (.ident i :: ts) rest hasSemi (f ++ f') := by
  have hlet : atWord "let" (.ident i :: ts) = false := Ident.not_isWord_of_isName hi (by decide)
  refine reads_get fun _ _ => ?_
  refine (reads_outerAttrs_nil (rules (rules g)) rfl).andThen ?_
  refine (reads_ahead _).andThen ?_
  simp only [macroStart_name hi hts, not_atItem hi hts, hlet, Bool.or_false, Bool.false_eq_true,
    if_false, reduceCtorEq, beq_iff_eq]
  have hearly := g.reads_early (opensEarly_name hi ts) hunary (endsExpr_of_closedBy hmid)
  refine hearly.bind (hsemi.before ?_)
  cases hasSemi <;> exact reads_pure _ rest

/-! ## 3. Blocks -/

/-- Statements up to the end of a block. -/
inductive Statements : List Token → Fragment → Prop
  | nil : Statements [] .empty
  /-- An expression without a semicolon. -/
  | value {ts : List Token} {f : Fragment} (hsemi : atOp ";" ts = false) (hne : ts ≠ [])
    (h : Reads g.statement ts [] false f) : Statements ts f
  | more {ts mid : List Token} {f f' : Fragment} (hsemi : atOp ";" ts = false)
    (hlt : mid.length < ts.length) (h : Reads g.statement ts mid true f)
    (hs : Statements mid f') : Statements ts (f ++ f')

/-- A round of reading the statements of a block. -/
def statementRound : Reader Bool := do
  repeatWhile (op? ";")
  if ← atEnd then return false
  let mayGoOn ← g.statement
  if ← atEnd then return false
  require mayGoOn
  return true

variable {g}

theorem reads_noSemis (h : atOp ";" ts = false) :
    Reads (repeatWhile (op? ";")) ts ts () .empty :=
  (Repeats.stop (reads_op?_of_not h)).reads

theorem reads_statementRound_last {mayGoOn : Bool} (hsemi : atOp ";" ts = false) (hne : ts ≠ [])
    (h : Reads g.statement ts [] mayGoOn f) : Reads g.statementRound ts [] false f := by
  refine (reads_noSemis hsemi).andThen ((reads_atEnd_of_ne_nil hne).andThen (h.before ?_))
  exact (reads_sees List.isEmpty []).andThen (reads_pure false [])

theorem Statements.repeats (h : Statements g ts f) : Repeats g.statementRound ts [] f := by
  induction h with
  | nil =>
    refine .stop ((reads_noSemis rfl).andThen ?_)
    exact (reads_sees List.isEmpty []).andThen (reads_pure false [])
  | value hsemi hne h => exact .stop (reads_statementRound_last hsemi hne h)
  | @more ts mid f f' hsemi hlt h hs ih =>
    have hne : ts ≠ [] := List.ne_nil_of_length_pos (Nat.zero_lt_of_lt hlt)
    cases hs with
    | nil =>
      rw [Fragment.append_empty]
      exact .stop (reads_statementRound_last hsemi hne h)
    | value hsemi' hne' h' =>
      refine .round ?_ hlt ih
      refine (reads_noSemis hsemi).andThen ((reads_atEnd_of_ne_nil hne).andThen (h.before ?_))
      refine (reads_atEnd_of_ne_nil hne').andThen ?_
      exact (reads_require rfl _).andThen (reads_pure true _)
    | more hsemi' hlt' h' hs' =>
      refine .round ?_ hlt ih
      refine (reads_noSemis hsemi).andThen ((reads_atEnd_of_ne_nil hne).andThen (h.before ?_))
      refine (reads_atEnd_of_ne_nil (List.ne_nil_of_length_pos (Nat.zero_lt_of_lt hlt'))).andThen ?_
      exact (reads_require rfl _).andThen (reads_pure true _)

/-- A block is read as its statements. -/
theorem Statements.reads (h : Statements g ts f) : Reads g.allStatements ts [] () f :=
  h.repeats.reads

/-- Statements one after the other, each of which starts with a word, and more behind them. -/
theorem Statements.flatMap {α : Type} {xs : List α} {φ ψ : α → List Token} {last : List Token}
    (hfirst : ∀ x ∈ xs, ∃ i ts, φ x = .ident i :: ts)
    (h : ∀ x ∈ xs, ∀ rest, ∃ f, f.tokens = ψ x ∧ Reads g.statement (φ x ++ rest) rest true f)
    (hlast : Statements g last f') :
    ∃ f, f.tokens = xs.flatMap ψ ++ f'.tokens ∧ Statements g (xs.flatMap φ ++ last) f := by
  induction xs with
  | nil => exact ⟨f', rfl, hlast⟩
  | cons x xs ih =>
    obtain ⟨i, ts, hx⟩ := hfirst x List.mem_cons_self
    obtain ⟨fs, htokens, hs⟩ := ih (fun y hy => hfirst y (List.mem_cons_of_mem _ hy))
      fun y hy => h y (List.mem_cons_of_mem _ hy)
    obtain ⟨f, htoken, hstatement⟩ := h x List.mem_cons_self (xs.flatMap φ ++ last)
    refine ⟨f ++ fs, ?_, ?_⟩
    · rw [Fragment.tokens_append, htoken, htokens, List.flatMap_cons, List.append_assoc]
    · rw [hx] at hstatement
      rw [List.flatMap_cons, List.append_assoc, hx]
      refine .more rfl ?_ hstatement hs
      simp only [List.length_append, List.length_cons]
      omega

end Grammar

end EnumCatalog.Syntax
