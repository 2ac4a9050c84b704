import EnumCatalog.Proofs.CarriedTypes
import Mathlib.Data.List.Find

/-!
# Patterns and expressions in front of more tokens

The rules of patterns and of expressions keep the relation between a grammar and one that reads more
(`Grammar.Below`). A range without an upper end is over where nothing is ahead and over at a comma, so
the two tests that tell its end find the same at both.
-/

set_option autoImplicit false

namespace EnumCatalog.Syntax

open Reader

variable {tail : List Token}

/-! ## 1. Patterns -/

theorem carries_member (ht : ClosedBy [','] tail) : Carries tail Grammar.member Grammar.member := by
  refine .ahead fun ts => .test ht.overlooks_atName ?_ ?_
  · exact (carries_name ht).discard.bind fun _ => carries_pure true
  · cases ts with
    | nil => exact carries_failure _
    | cons t ts =>
      cases t with
      | literal text =>
        cases hint : Literal.int? text.toList with
        | none =>
          simp only [hint]
          exact carries_failure _
        | some x =>
          obtain ⟨n, _ | ⟨c, cs⟩⟩ := x
          · simp only [hint, List.cons_append]
            exact (carries_require id).bind fun _ => carries_next.discard.bind fun _ =>
              (carries_emitTokens _).bind fun _ => carries_pure false
          · simp only [hint]
            exact carries_failure _
      | _ => exact carries_failure _

theorem carries_rangeDots (ht : ClosedBy [','] tail) (allowOlder : Bool) :
    Carries tail (Grammar.rangeDots allowOlder) (Grammar.rangeDots allowOlder) := by
  refine .ahead fun ts => .test (ht.overlooks_atOp rfl) ?_ <| .test (ht.overlooks_atOp rfl) ?_ ?_
  · exact (carries_op "..=").bind fun _ => carries_pure true
  · exact (carries_require id).bind fun _ => (carries_op "...").silent.bind fun _ =>
      (carries_emitTokens _).bind fun _ => carries_pure true
  · exact (carries_op "..").bind fun _ => carries_pure false

namespace Grammar

theorem overlooks_atPathPattern (ht : ClosedBy [','] tail) : Overlooks tail atPathPattern := by
  have hafter : Overlooks tail fun ts => atOp "::" ts || atOp "!" ts || atGroup .brace ts ||
      atGroup .paren ts || atOp ".." ts :=
    ((((ht.overlooks_atOp rfl).or (ht.overlooks_atOp rfl)).or (ht.overlooks_atGroup _)).or
      (ht.overlooks_atGroup _)).or (ht.overlooks_atOp rfl)
  exact ((((ht.overlooks_atName.and_tail rfl hafter).or
    ((ht.overlooks_atWord _).and_tail rfl (ht.overlooks_atOp rfl))).or (ht.overlooks_atOp rfl)).or
      (ht.overlooks_atOp rfl)).or (ht.overlooks_atWordIn _)

namespace Below

variable {g g' : Grammar} (h : g.Below g')

include h

theorem patterns (ht : ClosedBy [','] tail) : Carries tail g.patterns g'.patterns := by
  refine (carries_op? ht rfl).bind fun _ => (h.pattern ht).bind fun _ => (Carries.collect ?_).bind
    fun _ => carries_pure _
  refine .ahead fun ts => .test (((ht.overlooks_atOp rfl).and (ht.overlooks_atOp rfl).not).and
    (ht.overlooks_atOp rfl).not) ?_ (carries_pure none)
  exact (carries_op "|").bind fun _ => (h.pattern ht).bind fun _ => carries_pure _

theorem constBlock (ht : ClosedBy [','] tail) : Carries tail g.constBlock g'.constBlock :=
  (carries_word ht _).bind fun _ => h.body.discard

theorem rangeEnd? (ht : ClosedBy [','] tail) : Carries tail g.rangeEnd? g'.rangeEnd? := by
  have hnone : Overlooks tail fun ts => ts.isEmpty || atOp "|" ts || atOp "=" ts ||
      (atOp ":" ts && !atOp "::" ts) || atOp "," ts || atOp ";" ts || atWord "if" ts := by
    refine ht.overlooks_end rfl (fun j _ => by cases j <;> rfl) fun t ts => ?_
    rw [ClosedBy.atOp_comma_append, (ht.overlooks_atOp rfl), (ht.overlooks_atOp rfl), (ht.overlooks_atOp rfl),
      (ht.overlooks_atOp rfl), (ht.overlooks_atOp rfl), ht.overlooks_atWord]
    rfl
  refine .ahead fun ts => .test hnone (carries_pure false) <| .test ht.overlooks_atLiteral ?_ <|
    .test ((ht.overlooks_atPathWord.or (ht.overlooks_atOp rfl)).or (ht.overlooks_atOp rfl)) ?_ ?_
  · exact (carries_literal ht).bind fun _ => carries_pure true
  · exact (h.qualifiedPath ht true).discard.bind fun _ => carries_pure true
  · exact (carries_require_ahead (ht.overlooks_atWord _) ts).bind fun _ => (h.constBlock ht).bind
      fun _ => carries_pure true

theorem rangeAfter (ht : ClosedBy [','] tail) : Carries tail g.rangeAfter g'.rangeAfter :=
  (carries_rangeDots ht true).bind fun _ => (h.rangeEnd? ht).bind fun _ =>
    (carries_require id).bind fun _ => carries_pure _

theorem fieldPatterns : Carries tail g.fieldPatterns g'.fieldPatterns := by
  refine .inGroup .brace <| .repeatWhile <| carries_atEnd.bind fun _ =>
    .branch (carries_pure false) ?_
  refine (h.outerAttrs closedBy_nil).bind fun _ => (carries_op? closedBy_nil rfl).bind fun _ =>
    .branch (carries_pure false) ?_
  refine .get_nil fun start => (carries_word? closedBy_nil _).bind fun boxed =>
    (carries_word? closedBy_nil _).bind fun byRef => (carries_word? closedBy_nil _).bind
      fun mutable => ?_
  extract_lets plain rest value value'
  have hrest (u : Unit) : Carries [] (rest u) (rest u) := carries_atEnd.bind fun _ =>
    .branch (carries_pure false) ((carries_op ",").bind fun _ => carries_pure true)
  have hvalue (named : Bool) : Carries [] (value named) (value' named) := by
    refine (carries_sees_nil _).bind fun _ => .branch ?_ (.branch ?_ (hrest ()))
    · exact (carries_op ":").bind fun _ => (h.patterns closedBy_nil).discard.bind hrest
    · exact (carries_restoreSince_nil start).bind hrest
  exact .branch ((carries_member closedBy_nil).bind hvalue)
    ((carries_name closedBy_nil).discard.bind fun _ => hvalue true)

theorem pathPattern (ht : ClosedBy [','] tail) : Carries tail g.pathPattern g'.pathPattern := by
  refine (h.qualifiedPath ht true).bind fun q => .ahead fun ts =>
    .test (((ht.overlooks_atOp rfl).and (ht.overlooks_atOp rfl).not).and (overlooks_const _)) ?_ <|
    .test (ht.overlooks_atGroup _) ?_ <| .test (ht.overlooks_atGroup _) ?_ <|
    .test (ht.overlooks_atOp rfl) (h.rangeAfter ht) (carries_pure _)
  · exact (carries_op "!").bind fun _ => carries_anyGroup.discard.bind fun _ => carries_pure _
  · exact h.fieldPatterns.bind fun _ => carries_pure _
  · exact (Carries.inGroup .paren (h.patterns closedBy_nil).commaList).discard.bind fun _ =>
      carries_pure _

theorem bindingPattern (ht : ClosedBy [','] tail) :
    Carries tail g.bindingPattern g'.bindingPattern := by
  refine (carries_word? ht _).discard.bind fun _ => (carries_word? ht _).discard.bind fun _ =>
    (carries_sees (ht.overlooks_atWord _)).bind fun _ => ?_
  extract_lets rest rest'
  have hrest (u : Unit) : Carries tail (rest u) (rest' u) := (carries_op? ht rfl).bind fun _ =>
    .branch (h.pattern ht).discard (carries_pure ())
  exact .branch ((carries_word ht _).bind hrest) ((carries_name ht).discard.bind hrest)

theorem anyPattern (ht : ClosedBy [','] tail) : Carries tail g.anyPattern g'.anyPattern := by
  have hliteral : Overlooks tail fun ts => atOp "-" ts || atLiteral ts || atWord "const" ts :=
    ((ht.overlooks_atOp rfl).or ht.overlooks_atLiteral).or (ht.overlooks_atWord _)
  have hbinding : Overlooks tail fun ts => atWordIn ["ref", "mut", "self"] ts || atName ts :=
    (ht.overlooks_atWordIn _).or ht.overlooks_atName
  -- The tests of the rule in their order, and then what each kind of pattern goes on with.
  refine .get fun start => .test (overlooks_atPathPattern ht) (h.pathPattern ht) <|
    .test (ht.overlooks_atWord _) ?_ <| .test (ht.overlooks_atWord _) ?_ <| .test hliteral ?_ <|
    .test hbinding ?_ <| .test (ht.overlooks_atOp rfl) ?_ <| .test (ht.overlooks_atGroup _) ?_ <|
    .test (ht.overlooks_atGroup _) ?_ ?_
  · exact (carries_word ht _).bind fun _ => carries_pure _
  · exact (carries_word ht _).bind fun _ => (h.pattern ht).discard.bind fun _ =>
      (carries_restoreSince start).bind fun _ => carries_pure _
  · exact (h.rangeEnd? ht).bind fun _ => (carries_require id).bind fun _ =>
      (carries_sees (ht.overlooks_atOp rfl)).bind fun _ => .branch (h.rangeAfter ht) (carries_pure _)
  · exact (h.bindingPattern ht).bind fun _ => carries_pure _
  · exact (carries_op "&").bind fun _ => (carries_word? ht _).discard.bind fun _ =>
      (h.pattern ht).discard.bind fun _ => carries_pure _
  · exact (Carries.inGroup .paren (h.patterns closedBy_nil).commaList).discard.bind fun _ =>
      carries_pure _
  · refine (Carries.inGroup .bracket (Carries.commaList ?_).discard).bind fun _ => carries_pure _
    exact (h.patterns closedBy_nil).bind fun _ => carries_require id
  · exact (carries_require_ahead ((ht.overlooks_atOp rfl).and (ht.overlooks_atOp rfl).not) start.rest).bind
      fun _ => (carries_rangeDots ht false).bind fun _ => (h.rangeEnd? ht).bind fun _ =>
        (carries_require id).bind fun _ => carries_pure _

end Below

/-! ## 2. Operators -/

theorem binaryOperator?_append (ht : ClosedBy [','] tail) (ts : List Token) :
    binaryOperator? (ts ++ tail) = binaryOperator? ts := by
  have hops : ∀ o ∈ binaryOperators, o.1.toList.contains ',' = false := by decide
  exact List.find?_congr fun o ho => ht.overlooks_atOp (hops o ho) ts

theorem precedenceAhead_append (ht : ClosedBy [','] tail) (ts : List Token) :
    precedenceAhead (ts ++ tail) = precedenceAhead ts := by
  unfold precedenceAhead
  rw [binaryOperator?_append ht, (ht.overlooks_atOp rfl), (ht.overlooks_atOp rfl), (ht.overlooks_atOp rfl),
    ht.overlooks_atWord]

theorem overlooks_endsRange (ht : ClosedBy [','] tail) (struct : Bool) :
    Overlooks tail (endsRange struct) := by
  refine ht.overlooks_end rfl (fun j _ => by cases j <;> cases struct <;> rfl) fun t ts => ?_
  have hop {s : String} (hs : s.toList.contains ',' = false) (ts : List Token) :
      atOp s (ts ++ tail) = atOp s ts :=
    ht.overlooks_atOp hs ts
  unfold endsRange
  simp (disch := decide) only [List.any_cons, List.any_nil, hop, ClosedBy.atOp_comma_append,
    ht.overlooks_atGroup .brace (t :: ts), ht.overlooks_atWord "as" (t :: ts)]
  rfl

theorem overlooks_atTrailer (ht : ClosedBy [','] tail) : Overlooks tail atTrailer :=
  ((((ht.overlooks_atOp rfl).and (ht.overlooks_atOp rfl).not).or (ht.overlooks_atOp rfl)).or
    (ht.overlooks_atGroup _)).or (ht.overlooks_atGroup _)

namespace Below

variable {g g' : Grammar} (h : g.Below g')

include h

theorem rightSide (ht : ClosedBy [','] tail) (struct : Bool) (p : Precedence) :
    Carries tail (g.rightSide struct p) (g'.rightSide struct p) :=
  (h.unary ht struct).bind fun left => h.operand ht struct p left

theorem moreRightSide (ht : ClosedBy [','] tail) (struct : Bool) (p : Precedence)
    (right : ExprShape) :
    Carries tail (g.moreRightSide struct p right) (g'.moreRightSide struct p right) := by
  refine .ahead fun ts => ?_
  rw [precedenceAhead_append ht]
  refine .branch ((h.operators ht _ _ _).bind fun right => .ahead fun ts' => ?_) (carries_pure _)
  have hlength : ((ts' ++ tail).length == (ts ++ tail).length) = (ts'.length == ts.length) := by simp
  rw [hlength]
  exact .branch (carries_pure _) (h.operand ht _ _ _)

theorem rangeFrom (ht : ClosedBy [','] tail) (struct : Bool) :
    Carries tail (g.rangeFrom struct) (g'.rangeFrom struct) := by
  refine (carries_rangeDots ht false).bind fun closed =>
    (carries_sees (overlooks_endsRange ht struct)).bind fun _ => .branch (carries_pure _) ?_
  exact (h.rightSide ht struct .range).discard.bind fun _ => carries_pure _

theorem anyOperators (ht : ClosedBy [','] tail) (struct : Bool) (base : Precedence)
    (left : ExprShape) :
    Carries tail (g.anyOperators struct base left) (g'.anyOperators struct base left) := by
  refine .branch (carries_pure _) <| .ahead fun ts => ?_
  rw [binaryOperator?_append ht]
  cases binaryOperator? ts with
  | some o =>
    obtain ⟨s, p⟩ := o
    exact .branch (carries_pure _) <| (carries_require id).bind fun _ => (carries_op s).bind fun _ =>
      (h.rightSide ht struct p).discard.bind fun _ => h.operators ht struct base _
  | none =>
    refine .test (((overlooks_const _).and (ht.overlooks_atOp rfl)).and (ht.overlooks_atOp rfl).not) ?_ <|
      .test ((overlooks_const _).and (ht.overlooks_atOp rfl)) (h.rangeFrom ht struct) <|
      .test ((overlooks_const _).and (ht.overlooks_atWord _)) ?_ (carries_pure _)
    · exact (carries_op "=").bind fun _ => (h.rightSide ht struct .assign).discard.bind fun _ =>
        h.operators ht struct base .other
    · exact (carries_word ht _).bind fun _ => (h.type ht false).discard.bind fun _ =>
        (carries_sees (overlooks_atTrailer ht)).bind fun _ => (carries_require id).bind fun _ =>
          h.operators ht struct base .other

end Below

/-! ## 3. Atoms -/

theorem overlooks_atExpr (ht : ClosedBy [','] tail) : Overlooks tail atExpr := by
  have hop {s : String} (hs : s.toList.contains ',' = false) (ts : List Token) :
      atOp s (ts ++ tail) = atOp s ts :=
    ht.overlooks_atOp hs ts
  intro ts
  simp (disch := decide) only [atExpr, hop, ht.overlooks_atIdent ts, ht.overlooks_atWord _ ts,
    ht.overlooks_atAnyGroup ts, ht.overlooks_atLiteral ts, ht.overlooks_atLifetime ts]

theorem overlooks_atClosure (ht : ClosedBy [','] tail) : Overlooks tail atClosure := by
  have hbinder : Overlooks tail fun ts => atWord "for" ts && atOp "<" ts.tail &&
      (atLifetime ts.tail.tail || atOp ">" ts.tail.tail) := by
    intro ts
    simp only [Bool.and_assoc]
    exact (ht.overlooks_atWord _).and_tail rfl
      ((ht.overlooks_atOp rfl).and_tail rfl (ht.overlooks_atLifetime.or (ht.overlooks_atOp rfl))) ts
  exact (((((ht.overlooks_atOp rfl).or (ht.overlooks_atWord _)).or hbinder).or
    ((ht.overlooks_atWord _).and_tail rfl (ht.overlooks_atGroup _).not)).or
      (ht.overlooks_atWord _)).or
        ((ht.overlooks_atWord _).and_tail rfl ((ht.overlooks_atOp rfl).or (ht.overlooks_atWord _)))

theorem overlooks_atPathExpr (ht : ClosedBy [','] tail) : Overlooks tail atPathExpr :=
  ((ht.overlooks_atPathWord.or (ht.overlooks_atOp rfl)).or (ht.overlooks_atOp rfl)).or
    ((ht.overlooks_atWord _).and_tail rfl ((ht.overlooks_atOp rfl).or (ht.overlooks_atOp rfl)))

theorem rel_test {p : List Token → Bool} (hp : Overlooks tail p) {r r' : Reader Unit}
    {o o' : Option (Reader Unit)} {ts : List Token} (hr : Carries tail r r')
    (ho : Option.Rel (Carries tail) o o') : Option.Rel (Carries tail)
      (if p ts then some r else o) (if p (ts ++ tail) then some r' else o') := by
  rw [hp]
  split
  · exact .some hr
  · exact ho

namespace Below

variable {g g' : Grammar} (h : g.Below g')

include h

theorem fieldValue : Carries [] g.fieldValue g'.fieldValue := by
  refine (h.outerAttrs closedBy_nil).bind fun _ => .ahead_nil fun ts => .branch ?_ ?_
  · exact (carries_name closedBy_nil).silent.bind fun _ => carries_emit _
  · exact (carries_member closedBy_nil).discard.bind fun _ => (carries_op ":").bind fun _ =>
      h.value closedBy_nil

theorem structFields : Carries tail g.structFields g'.structFields := by
  refine .inGroup .brace <| .repeatWhile <| carries_atEnd.bind fun _ =>
    .branch (carries_pure false) <| (carries_op? closedBy_nil rfl).bind fun _ => .branch ?_ ?_
  · exact carries_atEnd.bind fun _ =>
      .branch ((h.value closedBy_nil).bind fun _ => carries_pure false) (carries_pure false)
  · exact h.fieldValue.bind fun _ => carries_atEnd.bind fun _ => .branch (carries_pure false) <|
      (carries_op ",").bind fun _ => carries_pure true

theorem pathExpr (ht : ClosedBy [','] tail) (struct : Bool) :
    Carries tail (g.pathExpr struct) (g'.pathExpr struct) := by
  refine (h.qualifiedPath ht true).bind fun q => .ahead fun ts =>
    .test (((ht.overlooks_atOp rfl).and (ht.overlooks_atOp rfl).not).and (overlooks_const _)) ?_ <|
    .test ((overlooks_const _).and (ht.overlooks_atGroup _)) ?_ (carries_pure _)
  · exact (carries_op "!").bind fun _ => carries_anyGroup.bind fun x => carries_pure _
  · exact h.structFields.bind fun _ => carries_pure _

theorem closureParam (ht : ClosedBy [','] tail) : Carries tail g.closureParam g'.closureParam :=
  (h.outerAttrs ht).bind fun _ => (h.pattern ht).discard.bind fun _ => (carries_op? ht rfl).bind fun _ =>
    .branch (h.type ht true).discard (carries_pure ())

theorem closure (ht : ClosedBy [','] tail) (struct : Bool) :
    Carries tail (g.closure struct) (g'.closure struct) := by
  refine (h.binder? ht).discard.bind fun _ =>
    (Carries.forIn (fun w => (carries_word? ht w).discard) _).bind fun _ =>
    (carries_op "|").bind fun _ => (Carries.repeatWhile ?_).bind fun _ =>
    (carries_op "|").bind fun _ => (carries_op? ht rfl).bind fun _ => .branch ?_ (h.expr ht _).discard
  · exact (carries_sees (ht.overlooks_atOp rfl)).bind fun _ => .branch (carries_pure false) <|
      (h.closureParam ht).bind fun _ => (carries_sees (ht.overlooks_atOp rfl)).bind fun _ =>
        .branch (carries_pure false) <| (carries_op ",").bind fun _ => carries_pure true
  · exact (h.type ht true).discard.bind fun _ => h.block

theorem conditional (ht : ClosedBy [','] tail) : Carries tail g.conditional g'.conditional := by
  refine .repeatWhile <| (carries_word ht _).bind fun _ => (h.expr ht false).discard.bind fun _ =>
    h.block.bind fun _ => (carries_word? ht _).bind fun _ => .branch ?_ (carries_pure false)
  exact (carries_sees (ht.overlooks_atWord _)).bind fun _ => .branch (carries_pure true) <|
    h.block.bind fun _ => carries_pure false

theorem arm : Carries [] g.arm g'.arm := by
  refine (h.outerAttrs closedBy_nil).bind fun _ => (h.patterns closedBy_nil).discard.bind fun _ =>
    (carries_word? closedBy_nil _).bind fun _ => ?_
  extract_lets rest rest'
  have hrest (u : Unit) : Carries [] (rest u) (rest' u) :=
    (carries_op "=>").bind fun _ => h.early.bind fun _ => carries_atEnd.bind fun _ =>
      .branch (carries_op ",") (carries_op?_nil ",").discard
  exact .branch ((h.value closedBy_nil).bind hrest) (hrest ())

theorem matching (ht : ClosedBy [','] tail) : Carries tail g.matching g'.matching :=
  (carries_word ht _).bind fun _ => (h.expr ht false).discard.bind fun _ => .inGroup .brace <|
    h.innerAttrs.bind fun _ => h.arm.untilEnd.discard

theorem iteration (ht : ClosedBy [','] tail) : Carries tail g.iteration g'.iteration :=
  (carries_word ht _).bind fun _ => (h.patterns ht).discard.bind fun _ =>
    (carries_word ht _).bind fun _ => (h.expr ht false).discard.bind fun _ => h.body.discard

theorem whileLoop (ht : ClosedBy [','] tail) : Carries tail g.whileLoop g'.whileLoop :=
  (carries_word ht _).bind fun _ => (h.expr ht false).discard.bind fun _ => h.body.discard

theorem wordBlock (ht : ClosedBy [','] tail) (w : String) :
    Carries tail (g.wordBlock w) (g'.wordBlock w) :=
  (carries_word ht w).bind fun _ => h.body.discard

theorem labeled (ht : ClosedBy [','] tail) : Carries tail g.labeled g'.labeled :=
  (carries_lifetime ht).bind fun _ => (carries_op ":").bind fun _ => .ahead fun _ =>
    .test (ht.overlooks_atWord _) (h.whileLoop ht) <| .test (ht.overlooks_atWord _) (h.iteration ht) <|
    .test (ht.overlooks_atWord _) (h.wordBlock ht _) h.body.discard

theorem breaking (ht : ClosedBy [','] tail) (struct : Bool) :
    Carries tail (g.breaking struct) (g'.breaking struct) := by
  refine (carries_word ht _).bind fun _ => (carries_lifetime? ht).bind fun _ => ?_
  extract_lets rest rest'
  have hrest (u : Unit) : Carries tail (rest u) (rest' u) := .ahead fun ts =>
    .test ((overlooks_atExpr ht).and ((overlooks_const _).or (ht.overlooks_atGroup _).not))
      (h.value ht) (carries_pure ())
  refine .branch ?_ (hrest ())
  exact (carries_sees (ht.overlooks_atOp rfl)).bind fun _ => (carries_require id).bind hrest

theorem wordValue (ht : ClosedBy [','] tail) (w : String) :
    Carries tail (g.wordValue w) (g'.wordValue w) :=
  (carries_word ht w).bind fun _ => (carries_sees (overlooks_atExpr ht)).bind fun _ =>
    .branch (h.value ht) (carries_pure ())

theorem letting (ht : ClosedBy [','] tail) (struct : Bool) :
    Carries tail (g.letting struct) (g'.letting struct) :=
  (carries_word ht _).bind fun _ => (h.patterns ht).discard.bind fun _ => (carries_op "=").bind
    fun _ => (h.unary ht struct).bind fun _ => (h.operators ht _ _ _).discard

theorem array : Carries tail g.array g'.array := by
  refine .inGroup .bracket <| carries_atEnd.bind fun _ => .branch ?_ (carries_pure ())
  refine (h.value closedBy_nil).bind fun _ => (carries_op? closedBy_nil rfl).bind fun _ =>
    .branch (h.value closedBy_nil) <| carries_atEnd.bind fun _ => .branch ?_ (carries_pure ())
  exact (carries_op ",").bind fun _ => (h.value closedBy_nil).commaList.discard

theorem blockLike? (ht : ClosedBy [','] tail) (ts : List Token) :
    Option.Rel (Carries tail) (g.blockLike? ts) (g'.blockLike? (ts ++ tail)) :=
  rel_test (ht.overlooks_atWord _) (h.conditional ht) <|
    rel_test (ht.overlooks_atWord _) (h.whileLoop ht) <|
    rel_test (ht.overlooks_atWord _) (h.iteration ht) <|
    rel_test (ht.overlooks_atWord _) (h.wordBlock ht _) <|
    rel_test (ht.overlooks_atWord _) (h.matching ht) <|
    rel_test (ht.overlooks_atWord _) (h.wordBlock ht _) <|
    rel_test (ht.overlooks_atWord _) (h.wordBlock ht _) <|
    rel_test (ht.overlooks_atGroup _) h.body.discard <|
    rel_test ht.overlooks_atLifetime (h.labeled ht) .none

theorem atom (ht : ClosedBy [','] tail) (struct : Bool) :
    Carries tail (g.atom struct) (g'.atom struct) := by
  have hblock : Overlooks tail (atGroup .brace) := ht.overlooks_atGroup _
  have hasync : Overlooks tail fun ts => atWord "async" ts &&
      (atGroup .brace ts.tail || (atWord "move" ts.tail && atGroup .brace ts.tail.tail)) :=
    (ht.overlooks_atWord _).and_tail rfl (hblock.or ((ht.overlooks_atWord _).and_tail rfl hblock))
  -- The tests of the rule in their order. None of them looks past the end of the argument.
  refine .get fun start => .test ht.overlooks_atLiteral ?_ <| .test hasync ?_ <|
    .test ((ht.overlooks_atWord _).and_tail rfl hblock) ?_ <| .test (overlooks_atClosure ht) ?_ <|
    .test ((ht.overlooks_atWord _).and_tail rfl (ht.overlooks_atOp rfl)) ?_ <|
    .test (overlooks_atPathExpr ht) (h.pathExpr ht struct) <| .test (ht.overlooks_atGroup _) ?_ <|
    .test (ht.overlooks_atWord _) ?_ <| .test (ht.overlooks_atWord _) ?_ <|
    .test (ht.overlooks_atWord _) ?_ <| .test (ht.overlooks_atWord _) ?_ <|
    .test (ht.overlooks_atGroup _) ?_ <| .test (ht.overlooks_atWord _) ?_ <|
    .test (ht.overlooks_atWord _) ?_ <| .test (ht.overlooks_atOp rfl) (h.rangeFrom ht struct) <|
    .test (ht.overlooks_atWord _) ?_ ?_
  · exact (carries_literal ht).bind fun _ => carries_pure _
  · exact (carries_word ht _).bind fun _ => (carries_word? ht _).discard.bind fun _ =>
      h.block.bind fun _ => carries_pure _
  · exact (carries_word ht _).bind fun _ => h.block.bind fun _ => carries_pure _
  · exact (h.closure ht struct).bind fun _ => carries_pure _
  · exact (carries_word ht _).bind fun _ => (carries_op "#").bind fun _ =>
      (carries_name ht).discard.bind fun _ => (carries_everything.inGroup .paren).bind fun _ =>
        (carries_restoreSince start).bind fun _ => carries_pure _
  · refine (Carries.inGroup .paren ?_).bind fun _ => carries_pure _
    refine carries_atEnd.bind fun _ => .branch ?_ (carries_pure ())
    refine (h.value closedBy_nil).bind fun _ => carries_atEnd.bind fun _ =>
      .branch ?_ (carries_pure ())
    exact (carries_op ",").bind fun _ => (h.value closedBy_nil).commaList.discard
  · exact (h.breaking ht struct).bind fun _ => carries_pure _
  · exact (carries_word ht _).bind fun _ => (carries_lifetime? ht).discard.bind fun _ =>
      carries_pure _
  · exact (h.wordValue ht _).bind fun _ => carries_pure _
  · exact (carries_word ht _).bind fun _ => (h.value ht).bind fun _ =>
      (carries_restoreSince start).bind fun _ => carries_pure _
  · exact h.array.bind fun _ => carries_pure _
  · exact (h.letting ht struct).bind fun _ => carries_pure _
  · exact (h.wordValue ht _).bind fun _ => carries_pure _
  · exact (carries_word ht _).bind fun _ => carries_pure _
  · have hrel := h.blockLike? ht start.rest
    cases hr : g.blockLike? start.rest with
    | none => exact carries_failure _
    | some r =>
      rw [hr] at hrel
      cases hr' : g'.blockLike? (start.rest ++ tail) with
      | none =>
        rw [hr'] at hrel
        cases hrel
      | some r' =>
        rw [hr'] at hrel
        cases hrel with
        | some hcarries =>
          simp only [Cursor.before, hr']
          exact hcarries.bind fun _ => carries_pure _

end Below

/-! ## 4. Operands and expressions -/

namespace Below

variable {g g' : Grammar} (h : g.Below g')

include h

theorem afterPoint (ht : ClosedBy [','] tail) : Carries tail g.afterPoint g'.afterPoint := by
  refine (carries_op ".").bind fun _ => .ahead fun ts => ?_
  extract_lets rest rest'
  have hrest (goesOn : Bool) : Carries tail (rest goesOn) (rest' goesOn) := by
    refine .branch ((carries_word? ht _).bind fun _ => .branch ?_ (carries_pure ())) (carries_pure ())
    refine (carries_member ht).bind fun named => (carries_sees (ht.overlooks_atOp rfl)).bind fun _ => ?_
    extract_lets turbofish call call'
    have hcall (u : Unit) : Carries tail (call u) (call' u) :=
      (carries_sees (ht.overlooks_atGroup _)).bind fun _ =>
        .branch (Carries.inGroup .paren (h.value closedBy_nil).commaList).discard (carries_pure ())
    exact .branch ((h.arguments ht).discard.bind hcall) (hcall ())
  -- A number after the point may be two, with a point between them; anything else is a name.
  cases ts with
  | nil =>
    cases tail with
    | nil => exact (carries_pure true).bind hrest
    | cons t tail =>
      cases t with
      | punct c j => exact (carries_pure true).bind hrest
      | _ => exact False.elim ht
  | cons t ts =>
    cases t with
    | literal text =>
      refine .branch (carries_next.discard.bind fun _ => ?_) ((carries_pure true).bind hrest)
      cases fieldNumbers? text with
      | some x =>
        obtain ⟨numbers, trailing⟩ := x
        have hgoesOn (u : Unit) : Carries tail (pure trailing >>= rest) (pure trailing >>= rest') :=
          (carries_pure trailing).bind hrest
        exact (carries_emitTokens _).bind fun _ =>
          .branch ((carries_emitTokens _).bind hgoesOn) (hgoesOn ())
      | none => exact (carries_failure _).bind hrest
    | _ => exact (carries_pure true).bind hrest

theorem trailers (ht : ClosedBy [','] tail) (shape : ExprShape) :
    Carries tail (g.trailers shape) (g'.trailers shape) := by
  refine (Carries.collect ?_).bind fun _ => carries_pure _
  refine .ahead fun ts => .test (ht.overlooks_atGroup _) ?_ <|
    .test (((ht.overlooks_atOp rfl).and (ht.overlooks_atOp rfl).not).and (overlooks_const _)) ?_ <|
    .test (ht.overlooks_atGroup _) ?_ <|
    .test ((ht.overlooks_atOp rfl).and (overlooks_const _)) ?_ (carries_pure none)
  · exact (Carries.inGroup .paren (h.value closedBy_nil).commaList).discard.bind fun _ =>
      carries_pure _
  · exact (h.afterPoint ht).bind fun _ => carries_pure _
  · exact ((h.value closedBy_nil).inGroup .bracket).bind fun _ => carries_pure _
  · exact (carries_op "?").bind fun _ => carries_pure _

theorem anyUnary (ht : ClosedBy [','] tail) (struct : Bool) :
    Carries tail (g.anyUnary struct) (g'.anyUnary struct) := by
  refine .get fun start => (h.outerAttrs ht).bind fun attrs => .ahead fun ts =>
    .test (ht.overlooks_atOp rfl) ?_ <|
    .test (((ht.overlooks_atOp rfl).or (ht.overlooks_atOp rfl)).or (ht.overlooks_atOp rfl)) ?_ ?_
  · refine (carries_op "&").bind fun _ => .ahead fun ts => ?_
    extract_lets rest rest'
    have hrest (u : Unit) : Carries tail (rest u) (rest' u) :=
      (h.unary ht struct).discard.bind fun _ => carries_pure _
    refine .test ((ht.overlooks_atWord _).and_tail rfl (ht.overlooks_atWordIn _)) ?_
      ((carries_word? ht _).discard.bind hrest)
    exact (carries_word ht _).bind fun _ => (carries_word? ht _).bind fun _ =>
      .branch ((carries_word ht _).bind hrest) (hrest ())
  · rw [ht.overlooks_atOp (rfl : "*".toList.contains ',' = false),
      ht.overlooks_atOp (rfl : "!".toList.contains ',' = false)]
    exact (carries_op _).bind fun _ => (h.unary ht struct).discard.bind fun _ => carries_pure _
  · refine (h.atom ht struct).bind fun shape => (h.trailers ht shape).bind fun shape => ?_
    extract_lets rest
    have hrest (u : Unit) : Carries tail (rest u) (rest u) :=
      (carries_require id).bind fun _ => carries_pure _
    exact .branch ((carries_restoreSince start).bind hrest) (hrest ())

theorem anyExpr (ht : ClosedBy [','] tail) (struct : Bool) :
    Carries tail (g.anyExpr struct) (g'.anyExpr struct) :=
  (h.unary ht struct).bind fun left => h.operators ht struct .any left

theorem earlyExpr : Carries [] g.earlyExpr g'.earlyExpr := by
  refine (h.outerAttrs closedBy_nil).bind fun _ => .ahead_nil fun ts => ?_
  extract_lets second isClosure r? r?'
  have hrel : Option.Rel (Carries []) r? r?' := by
    have hblockLike := h.blockLike? closedBy_nil ts
    rw [List.append_nil] at hblockLike
    dsimp only [r?, r?']
    split
    · exact .none
    · split
      · exact .some ((carries_word closedBy_nil _).bind fun _ => h.block)
      · exact hblockLike
  clear_value r? r?'
  cases hrel with
  | none =>
    exact (h.unary closedBy_nil true).bind fun left => h.operators closedBy_nil true .any left
  | some hr =>
    refine hr.bind fun _ => .ahead_nil fun _ => .branch ?_ (carries_pure _)
    exact (h.trailers closedBy_nil .block).bind fun left => h.operators closedBy_nil true .any left

end Below

end Grammar

end EnumCatalog.Syntax
