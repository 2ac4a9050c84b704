import EnumCatalog.Proofs.Functions

/-!
# Case distinctions, read forward

A `match` is a subject and arms with a pattern, an arrow and a value each. Here the patterns are
literals, paths and the underscore, and the values are literals, paths and paths that are called.

The subject is read without struct literals, as the brace behind it opens the arms.
-/

set_option autoImplicit false

namespace EnumCatalog.Syntax

open Reader

namespace Grammar

variable (g : Grammar) (p : NamePath) {ts mid rest inner : List Token} {f f' : Fragment}

/-! ## 1. Operands -/

/-- An operand after a reference sign. -/
theorem reads_anyUnary_reference (struct j : Bool) {shape : ExprShape}
    (hraw : atWord "raw" ts = false) (hmut : atWord "mut" ts = false)
    (h : Reads (g.unary struct) ts rest shape f) :
    Reads (g.anyUnary struct) (.punct '&' j :: ts) rest .other (.plain [.punct '&' false] ++ f) := by
  have hclosed : ClosedBy ['&'] (.punct '&' j :: ts) := closedBy_punct List.mem_cons_self j ts
  have hreference : atOp "&" (.punct '&' j :: ts) = true := by cases j <;> rfl
  refine reads_get fun _ _ => ?_
  refine (reads_outerAttrs_nil g (hclosed.not_atOp (by decide))).andThen ?_
  refine (reads_ahead _).andThen ?_
  rw [if_pos hreference]
  refine (reads_op hreference rfl).bind ((reads_ahead ts).andThen ?_)
  rw [hraw, Bool.false_and, if_neg Bool.false_ne_true]
  refine (reads_word?_of_not hmut).discard.andThen ?_
  exact h.discard.before (reads_pure _ rest)

/-- A path and the values it is called with. -/
theorem reads_anyUnary_call {as : List (Unit × Bool)}
    (hbuiltin : (atWord "builtin" (p.tokens ++ .paren inner :: rest) &&
      atOp "#" (p.tokens ++ .paren inner :: rest).tail) = false)
    (h : CommaList g.value inner as f) (hrest : ClosedBy closers rest) :
    Reads (g.anyUnary true) (p.tokens ++ .paren inner :: rest) rest .other
      (p.fragment ++ f.within .paren) :=
  reads_anyUnary g true (opensOperand_of_opensPath (p.opensPath _))
    (reads_atom_path g p true hbuiltin (endsPath_paren true inner rest))
    (g.reads_trailers_values h hrest)

/-! ## 2. Lists in brackets -/

/-- A list of values of one token each. -/
theorem answers_array {ι : Type} {xs : List ι} {φ : ι → Token}
    (h : ∀ x ∈ xs, ∀ rest, ClosedBy [','] rest → Answers g.value (φ x :: rest) rest ())
    (rest : List Token) :
    Answers g.array (.bracket (List.intercalate [.punct ',' false] (xs.map fun x => [φ x])) :: rest)
      rest () := by
  refine Answers.inGroup .bracket ?_ rest
  -- After the first value comes what tells a list from a repetition: a comma, or the end.
  cases xs with
  | nil => exact (reads_sees _ _).answers.bind (answers_pure () [])
  | cons x xs =>
    have hx := h x List.mem_cons_self
    cases xs with
    | nil =>
      refine (reads_atEnd_of_ne_nil (List.cons_ne_nil _ _)).answers.bind ((hx [] trivial).bind ?_)
      refine (reads_op?_of_not rfl).answers.bind ?_
      exact (reads_sees _ _).answers.bind (answers_pure () [])
    | cons y xs =>
      obtain ⟨as, f, hothers, -⟩ :=
        exists_commaList_intercalate fun z hz => h z (List.mem_cons_of_mem x hz)
      have hcomma := closedBy_punct (List.mem_cons_self (a := ',') (l := [])) false
        (List.intercalate [.punct ',' false] ((y :: xs).map fun x => [φ x]))
      refine (reads_atEnd_of_ne_nil (List.cons_ne_nil _ _)).answers.bind ((hx _ hcomma).bind ?_)
      refine (reads_op?_of_not rfl).answers.bind ?_
      refine (reads_atEnd_of_ne_nil (List.cons_ne_nil _ _)).answers.bind ?_
      exact (reads_comma false _).answers.bind hothers.reads.discard.answers

theorem reads_atom_array (struct : Bool)
    (h : Reads g.array (.bracket inner :: rest) rest () f) :
    Reads (g.atom struct) (.bracket inner :: rest) rest .other f := by
  have hgroup : ∀ d, atGroup d (.bracket inner :: rest) = (d == .bracket) := fun d => rfl
  have hword : ∀ w, atWord w (.bracket inner :: rest) = false := fun w => rfl
  have hliteral : atLiteral (.bracket inner :: rest) = false := rfl
  have hclosure : atClosure (.bracket inner :: rest) = false := rfl
  have hpath : atPathExpr (.bracket inner :: rest) = false := rfl
  refine reads_get fun _ _ => ?_
  simp only [hgroup, hword, hliteral, hclosure, hpath, Bool.false_and, Bool.false_eq_true, if_false]
  exact h.before (reads_pure _ rest)

/-- A reference to a list in brackets. -/
theorem answers_value_array (h : Answers g.array (.bracket inner :: rest) rest ())
    (hrest : ClosedBy closers rest) :
    Answers (rules (rules (rules g))).value (.punct '&' false :: .bracket inner :: rest) rest () := by
  obtain ⟨f, harray⟩ := h
  have hends := endsExpr_of_closedBy hrest
  have hlist := g.reads_anyUnary true (opensOperand_group _ _ _)
    (g.reads_atom_array true harray) (hends.reads_trailers g)
  have hreference := (rules g).reads_anyUnary_reference true false rfl rfl hlist
  exact ((rules g).reads_value_operand hreference hends).answers

/-! ## 3. Patterns -/

/-- A pattern is over before an arrow. -/
def EndsPattern (ts : List Token) : Prop := ∃ j rest, ts = .punct '=' true :: .punct '>' j :: rest

theorem reads_anyPattern_path (hrest : EndsPattern rest)
    (hpattern : atPathPattern (p.tokens ++ rest) = true) :
    Reads g.anyPattern (p.tokens ++ rest) rest .other p.fragment := by
  obtain ⟨j, rest, rfl⟩ := hrest
  refine reads_get fun _ _ => ?_
  rw [if_pos hpattern]
  refine Reads.before (NamePath.reads_qualifiedPath g true p ⟨rfl, rfl⟩) ?_
  exact (reads_ahead _).andThen (reads_pure _ _)

theorem reads_anyPattern_literal (text : String) (hrest : EndsPattern rest) :
    Reads g.anyPattern (.literal text :: rest) rest .other (.plain [.literal text]) := by
  obtain ⟨j, rest, rfl⟩ := hrest
  refine reads_get fun _ _ => ?_
  have hend : Reads g.rangeEnd? (.literal text :: .punct '=' true :: .punct '>' j :: rest)
      (.punct '=' true :: .punct '>' j :: rest) true (.plain [.literal text]) := by
    refine (reads_ahead _).andThen ?_
    exact (reads_literal text _).before (reads_pure true _)
  refine hend.before ((reads_require rfl _).andThen ?_)
  exact (reads_sees _ _).andThen (reads_pure _ _)

theorem reads_anyPattern_underscore (hrest : EndsPattern rest) :
    Reads g.anyPattern (.underscore :: rest) rest .other (.plain [.underscore]) := by
  obtain ⟨j, rest, rfl⟩ := hrest
  refine reads_get fun _ _ => ?_
  exact (reads_word rfl _).before (reads_pure _ _)

/-- A pattern without alternatives. -/
theorem reads_patterns {shape : PatternShape} (hopens : atOp "|" ts = false)
    (h : Reads g.pattern ts rest shape f) (hrest : EndsPattern rest) :
    Reads g.patterns ts rest shape f := by
  obtain ⟨j, rest, rfl⟩ := hrest
  refine (reads_op?_of_not hopens).andThen (h.before ?_)
  refine (reads_collect_nil ?_).andThen (reads_pure _ _)
  exact (reads_ahead _).andThen (reads_pure none _)

/-! ## 4. Arms -/

/-- An arm with a comma after it. -/
theorem answers_arm {shape : PatternShape} (hsign : atOp "#" ts = false)
    (hpattern : Reads g.patterns ts (.punct '=' true :: .punct '>' false :: mid) shape f)
    (hvalue : Reads g.early mid (.punct ',' false :: rest) .other f') :
    Answers g.arm ts rest () := by
  refine (reads_outerAttrs_nil g hsign).answers.bind (hpattern.discard.answers.bind ?_)
  refine (reads_word?_of_not rfl).answers.bind ((reads_op rfl rfl).answers.bind ?_)
  refine hvalue.answers.bind ((reads_sees _ _).answers.bind ?_)
  exact (reads_comma false rest).answers

/-! ## 5. A match as a statement -/

theorem answers_matching {arms : List Unit}
    (hsubject : Answers (g.expr false) ts (.brace inner :: rest) .other)
    (hsign : atOp "#" inner = false) (harms : Answers (untilEnd g.arm) inner [] arms) :
    Answers g.matching (.word "match" :: ts) rest () := by
  refine (reads_word rfl ts).answers.bind ((hsubject.map).bind ?_)
  refine Answers.inGroup .brace ?_ rest
  exact (reads_innerAttrs_nil g hsign).answers.bind harms.map

theorem answers_early_match (h : Answers g.matching (.word "match" :: ts) [] ()) :
    Answers (rules g).early (.word "match" :: ts) [] .block := by
  refine (reads_outerAttrs_nil g rfl).answers.bind ((reads_ahead _).answers.bind ?_)
  refine h.bind ((reads_ahead []).answers.bind ?_)
  exact answers_pure _ []

theorem answers_statement_match (h : Answers g.matching (.word "match" :: ts) [] ()) :
    Answers (rules g).statement (.word "match" :: ts) [] true := by
  have hstart : macroStart (.word "match" :: ts) = .none := rfl
  have hitem : atItem (.word "match" :: ts) = false := rfl
  have hlet : atWord "let" (.word "match" :: ts) = false := rfl
  obtain ⟨f, hearly⟩ := g.answers_early_match h
  refine ⟨f, reads_get fun _ _ => ?_⟩
  refine (reads_outerAttrs_nil (rules g) rfl).andThen ((reads_ahead _).andThen ?_)
  simp only [hstart, hitem, hlet, Bool.or_false, Bool.false_eq_true, if_false, reduceCtorEq,
    beq_iff_eq]
  refine hearly.before ((reads_op?_of_not rfl).andThen ?_)
  exact reads_pure true []

/-- A block of one match and nothing behind it. -/
theorem answers_statements_match (h : Answers g.matching (.word "match" :: ts) [] ()) :
    Answers (rules (rules g)).statements (.word "match" :: ts) [] () := by
  obtain ⟨f, hstatement⟩ := g.answers_statement_match h
  have hlt : ([] : List Token).length < (.word "match" :: ts).length := Nat.succ_pos _
  have hblock : Statements (rules g) (.word "match" :: ts) (f ++ .empty) :=
    .more rfl hlt hstatement .nil
  exact hblock.reads.answers

end Grammar

end EnumCatalog.Syntax
