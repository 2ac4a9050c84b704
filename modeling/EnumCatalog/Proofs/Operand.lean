import EnumCatalog.Proofs.NamePath

/-!
# Operands

Values that are a literal or a path, read as expressions. The rules of expressions ask for a long row
of things that might follow an operand, and stop where none of them is ahead (`EndsExpr`): at the
end of the tokens, at a comma or a semicolon (`closers`), and at the brace that opens what the
expression is the subject of.
-/

set_option autoImplicit false

namespace EnumCatalog.Syntax

open Reader

namespace Grammar

variable (g : Grammar) {ts mid rest : List Token} {f f' : Fragment}

/-! ## 1. The end of an expression -/

/-- What ends a value, unless nothing follows it. -/
def closers : List Char := [',', ';']

theorem binaryOperator?_of_closedBy (h : ClosedBy closers ts) : binaryOperator? ts = none := by
  refine List.find?_eq_none.mpr fun o ho => ?_
  have hbeside : ∀ o ∈ binaryOperators, opensBeside closers o.1 = true := by decide
  rw [h.not_atOp (hbeside o ho)]
  decide

/-- Nothing that goes on with an expression is ahead. -/
structure EndsExpr (ts : List Token) : Prop where
  operator : binaryOperator? ts = none
  equals : atOp "=" ts = false
  dots : atOp ".." ts = false
  conversion : atWord "as" ts = false
  paren : atGroup .paren ts = false
  bracket : atGroup .bracket ts = false
  point : atOp "." ts = false
  question : atOp "?" ts = false

theorem endsExpr_of_closedBy (h : ClosedBy closers ts) : EndsExpr ts where
  operator := binaryOperator?_of_closedBy h
  equals := h.not_atOp (by decide)
  dots := h.not_atOp (by decide)
  conversion := h.not_atWord "as"
  paren := h.not_atGroup .paren
  bracket := h.not_atGroup .bracket
  point := h.not_atOp (by decide)
  question := h.not_atOp (by decide)

theorem endsExpr_brace (inner ts : List Token) : EndsExpr (.brace inner :: ts) :=
  ⟨rfl, rfl, rfl, rfl, rfl, rfl, rfl, rfl⟩

theorem EndsExpr.reads_anyOperators (h : EndsExpr ts) (struct : Bool) (base : Precedence) :
    Reads (g.anyOperators struct base .other) ts ts .other .empty := by
  refine (reads_ahead ts).andThen ?_
  rw [h.operator]
  simp only [h.equals, h.dots, h.conversion, Bool.and_false, Bool.false_and, Bool.false_eq_true,
    if_false]
  exact reads_pure _ ts

/-- A round of what may follow an atom. -/
def trailerRound (shape : ExprShape) : Reader (Option Unit) := do
  let ts ← ahead
  if atGroup .paren ts then
    discard <| inGroup .paren (commaList g.value)
    return some ()
  else if atOp "." ts && !atOp ".." ts && shape != .range then
    g.afterPoint
    return some ()
  else if atGroup .bracket ts then
    inGroup .bracket g.value
    return some ()
  else if atOp "?" ts && shape != .range then
    op "?"
    return some ()
  else return none

theorem EndsExpr.reads_trailerRound (h : EndsExpr ts) :
    Reads (g.trailerRound .other) ts ts none .empty := by
  refine (reads_ahead ts).andThen ?_
  simp only [h.paren, h.bracket, h.point, h.question, Bool.false_and, Bool.false_eq_true, if_false]
  exact reads_pure none ts

theorem EndsExpr.reads_trailers (h : EndsExpr ts) :
    Reads (g.trailers .other) ts ts .other .empty :=
  Reads.andThen (reads_collect_nil (h.reads_trailerRound g)) (reads_pure _ ts)

/-! ## 2. From atoms to values -/

/-- There are no attributes in front of a word. -/
theorem reads_outerAttrs_nil (h : atOp "#" ts = false) :
    Reads g.outerAttrs ts ts [] .empty := by
  refine reads_collect_nil ((reads_sees _ ts).andThen ?_)
  rw [h]
  exact reads_pure none ts

/-- No attribute and no prefix operator is ahead. -/
structure OpensOperand (ts : List Token) : Prop where
  sign : atOp "#" ts = false
  reference : atOp "&" ts = false
  star : atOp "*" ts = false
  bang : atOp "!" ts = false
  minus : atOp "-" ts = false

theorem opensOperand_of_opensPath (h : OpensPath ts) : OpensOperand ts :=
  ⟨h.not_atOp (by decide), h.not_atOp (by decide), h.not_atOp (by decide), h.not_atOp (by decide),
    h.not_atOp (by decide)⟩

theorem opensOperand_of_opensWord (h : OpensWord ts) : OpensOperand ts :=
  ⟨h.not_atOp (by decide), h.not_atOp (by decide), h.not_atOp (by decide), h.not_atOp (by decide),
    h.not_atOp (by decide)⟩

theorem opensOperand_literal (text : String) (ts : List Token) :
    OpensOperand (.literal text :: ts) := ⟨rfl, rfl, rfl, rfl, rfl⟩

theorem opensOperand_group (d : Delimiter) (inner ts : List Token) :
    OpensOperand (.group d inner :: ts) := ⟨rfl, rfl, rfl, rfl, rfl⟩

theorem reads_anyUnary (struct : Bool) (hopens : OpensOperand ts)
    (hatom : Reads (g.atom struct) ts mid .other f)
    (htrailers : Reads (g.trailers .other) mid rest .other f') :
    Reads (g.anyUnary struct) ts rest .other (f ++ f') := by
  refine reads_get fun _ _ => ?_
  refine (reads_outerAttrs_nil g hopens.sign).andThen ?_
  refine (reads_ahead ts).andThen ?_
  simp only [hopens.reference, hopens.star, hopens.bang, hopens.minus, Bool.or_false,
    Bool.false_eq_true, if_false]
  exact hatom.bind (htrailers.before (reads_pure _ rest))

/-- The signs that may stand in front of an operand. -/
def prefixSigns : List Char := ['*', '!', '-']

/-- An operand after a sign. -/
theorem reads_anyUnary_sign (struct j : Bool) {c : Char} (hc : c ∈ prefixSigns) {shape : ExprShape}
    (h : Reads (g.unary struct) ts rest shape f) :
    Reads (g.anyUnary struct) (.punct c j :: ts) rest .other (.plain [.punct c false] ++ f) := by
  let us := Token.punct c j :: ts
  have hclosed : ClosedBy prefixSigns us := closedBy_punct hc j ts
  have hsign : (atOp "*" us || atOp "!" us || atOp "-" us) = true ∧
      Reads (op (if atOp "*" us then "*" else if atOp "!" us then "!" else "-")) us ts ()
        (.plain [.punct c false]) := by
    obtain rfl | rfl | rfl : c = '*' ∨ c = '!' ∨ c = '-' := by simpa [prefixSigns] using hc
    · cases j <;> exact ⟨rfl, reads_op (s := "*") rfl rfl⟩
    · cases j <;> exact ⟨rfl, reads_op (s := "!") rfl rfl⟩
    · cases j <;> exact ⟨rfl, reads_op (s := "-") rfl rfl⟩
  refine reads_get fun _ _ => ?_
  refine (reads_outerAttrs_nil g (hclosed.not_atOp (by decide))).andThen ?_
  refine (reads_ahead us).andThen ?_
  rw [hclosed.not_atOp (by decide), if_neg Bool.false_ne_true, if_pos hsign.1]
  exact hsign.2.bind (h.discard.before (reads_pure _ rest))

theorem reads_anyExpr (struct : Bool) (hunary : Reads (g.anyUnary struct) ts rest .other f)
    (hrest : EndsExpr rest) : Reads ((rules (rules g)).expr struct) ts rest .other f :=
  Reads.before hunary (hrest.reads_anyOperators g struct .any)

theorem reads_value_operand (hunary : Reads (g.anyUnary true) ts rest .other f)
    (hrest : EndsExpr rest) : Reads (rules (rules g)).value ts rest () f :=
  (g.reads_anyExpr true hunary hrest).discard

/-- An operand and what follows it are a value, two layers up in the grammar. -/
theorem reads_value (hopens : OpensOperand ts) (hatom : Reads (g.atom true) ts mid .other f)
    (htrailers : Reads (g.trailers .other) mid rest .other f')
    (hrest : ClosedBy closers rest) : Reads (rules (rules g)).value ts rest () (f ++ f') :=
  g.reads_value_operand (reads_anyUnary g true hopens hatom htrailers) (endsExpr_of_closedBy hrest)

/-! ## 3. Literals -/

theorem reads_atom_literal (struct : Bool) (text : String) (rest : List Token) :
    Reads (g.atom struct) (.literal text :: rest) rest .other (.plain [.literal text]) := by
  refine reads_get fun _ _ => ?_
  exact (reads_literal text rest).before (reads_pure _ rest)

theorem reads_value_literal (text : String) (hrest : ClosedBy closers rest) :
    Reads (rules (rules g)).value (.literal text :: rest) rest () (.plain [.literal text]) := by
  rw [← Fragment.append_empty (.plain [.literal text])]
  exact reads_value g (opensOperand_literal text rest) (reads_atom_literal g true text rest)
    ((endsExpr_of_closedBy hrest).reads_trailers g) hrest

theorem reads_value_negative {j : Bool} (text : String) (hrest : ClosedBy closers rest) :
    Reads (rules (rules (rules g))).value (.punct '-' j :: .literal text :: rest) rest ()
      (.plain [.punct '-' false, .literal text]) := by
  have hends := endsExpr_of_closedBy hrest
  have hliteral := reads_anyUnary g true (opensOperand_literal text rest)
    (reads_atom_literal g true text rest) (hends.reads_trailers g)
  have hnegative := reads_anyUnary_sign (rules g) true j
    (by decide : '-' ∈ prefixSigns) hliteral
  exact reads_value_operand (rules g) hnegative hends

/-! ## 4. Paths -/

variable (p : NamePath)

/-- A path as an operand is over before these tokens, and no macro call or struct literal opens with
it. -/
structure EndsPath (struct : Bool) (rest : List Token) : Prop where
  ends : NamePath.Ends rest
  bang : atOp "!" rest = false
  brace : (struct && atGroup .brace rest) = false

theorem endsPath_of_closedBy (struct : Bool) (h : ClosedBy closers rest) : EndsPath struct rest where
  ends := ⟨h.not_atOp (by decide), h.not_atOp (by decide)⟩
  bang := h.not_atOp (by decide)
  brace := by rw [h.not_atGroup, Bool.and_false]

theorem endsPath_paren (struct : Bool) (inner ts : List Token) :
    EndsPath struct (.paren inner :: ts) := ⟨⟨rfl, rfl⟩, rfl, by cases struct <;> rfl⟩

/-- The body of what a path is the subject of opens no struct literal. -/
theorem endsPath_brace (inner ts : List Token) : EndsPath false (.brace inner :: ts) :=
  ⟨⟨rfl, rfl⟩, rfl, rfl⟩

theorem reads_pathExpr_path (struct : Bool) (hrest : EndsPath struct rest) :
    Reads (g.pathExpr struct) (p.tokens ++ rest) rest .other p.fragment := by
  refine Reads.before (NamePath.reads_qualifiedPath g true p hrest.ends) ?_
  refine (reads_ahead rest).andThen ?_
  simp only [hrest.bang, hrest.brace, Bool.false_and, Bool.false_eq_true, if_false]
  exact reads_pure _ rest

theorem reads_atom_path (struct : Bool)
    (hbuiltin : (atWord "builtin" (p.tokens ++ rest) && atOp "#" (p.tokens ++ rest).tail) = false)
    (hrest : EndsPath struct rest) :
    Reads (g.atom struct) (p.tokens ++ rest) rest .other p.fragment := by
  have hopens := p.opensPath rest
  have hword : ∀ w ∈ Ident.reservedWords, w ∉ Ident.pathWords →
      atWord w (p.tokens ++ rest) = false := fun w hw hne => hopens.not_atWord hw hne
  have hclosure : atClosure (p.tokens ++ rest) = false := by
    unfold atClosure
    simp only [hopens.not_atOp (s := "|") (by decide), hword "move" (by decide) (by decide),
      hword "for" (by decide) (by decide), hword "const" (by decide) (by decide),
      hword "static" (by decide) (by decide), hword "async" (by decide) (by decide),
      Bool.false_and, Bool.or_false]
  have hpath : atPathExpr (p.tokens ++ rest) = true := by
    unfold atPathExpr
    rw [hopens.atPath, Bool.true_or, Bool.true_or]
  refine reads_get fun _ _ => ?_
  simp only [hopens.not_atLiteral, hword "async" (by decide) (by decide),
    hword "try" (by decide) (by decide), hclosure, hbuiltin, hpath, Bool.false_and,
    Bool.false_eq_true, if_false, if_true]
  exact reads_pathExpr_path g p struct hrest

/-- A path that nothing is added to. -/
theorem reads_anyUnary_path (struct : Bool)
    (hbuiltin : (atWord "builtin" (p.tokens ++ rest) && atOp "#" (p.tokens ++ rest).tail) = false)
    (hrest : EndsPath struct rest) (hends : EndsExpr rest) :
    Reads (g.anyUnary struct) (p.tokens ++ rest) rest .other p.fragment := by
  rw [← Fragment.append_empty p.fragment]
  exact reads_anyUnary g struct (opensOperand_of_opensPath (p.opensPath rest))
    (reads_atom_path g p struct hbuiltin hrest) (hends.reads_trailers g)

theorem reads_value_path
    (hbuiltin : (atWord "builtin" (p.tokens ++ rest) && atOp "#" (p.tokens ++ rest).tail) = false)
    (hrest : ClosedBy closers rest) :
    Reads (rules (rules g)).value (p.tokens ++ rest) rest () p.fragment := by
  have hends := endsExpr_of_closedBy hrest
  have hunary := reads_anyUnary_path g p true hbuiltin (endsPath_of_closedBy true hrest) hends
  exact reads_value_operand g hunary hends

/-! ## 5. Names -/

/-- The path of one name. -/
def ofName (i : Ident) (hi : i.isName = true) : NamePath where
  leading := false
  first := i
  others := []
  isSegment := by
    intro j hj
    rw [List.mem_singleton.mp hj, Ident.isSegment_of_isName hi]

/-- A name is over before these tokens, and nothing else opens with it. -/
structure EndsName (rest : List Token) : Prop where
  path : EndsPath true rest
  sign : atOp "#" rest = false

theorem endsName_of_closedBy (h : ClosedBy ['.', ',', ';'] rest) : EndsName rest where
  path := ⟨⟨h.not_atOp (by decide), h.not_atOp (by decide)⟩, h.not_atOp (by decide),
    h.not_atGroup .brace⟩
  sign := h.not_atOp (by decide)

theorem endsName_paren (inner ts : List Token) : EndsName (.paren inner :: ts) :=
  ⟨endsPath_paren true inner ts, rfl⟩

theorem endsName_point (j : Bool) (ts : List Token) : EndsName (.punct '.' j :: ts) :=
  endsName_of_closedBy (closedBy_punct List.mem_cons_self j ts)

theorem reads_atom_name {i : Ident} (hi : i.isName = true) (hrest : EndsName rest) :
    Reads (g.atom true) (.ident i :: rest) rest .other ⟨[.ident i], [i.text]⟩ := by
  refine reads_atom_path g (ofName i hi) true ?_ hrest.path
  show (_ && atOp "#" rest) = false
  rw [hrest.sign, Bool.and_false]

theorem reads_value_name {i : Ident} (hi : i.isName = true) (hrest : ClosedBy closers rest) :
    Reads (rules (rules g)).value (.ident i :: rest) rest () ⟨[.ident i], [i.text]⟩ := by
  refine reads_value_path g (ofName i hi) ?_ hrest
  show (_ && atOp "#" rest) = false
  rw [hrest.not_atOp (by decide), Bool.and_false]

end Grammar

end EnumCatalog.Syntax
