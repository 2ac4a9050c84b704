import EnumCatalog.Proofs.Carrying

/-!
# Types in front of more tokens

One grammar is *below* another if the other reads all that it reads, types, patterns and expressions
also in front of a comma (`Grammar.Below`). This is what a deeper grammar does for one of less depth.
The rules that are written over a grammar keep the relation. Here it is shown for the rules of
attributes, paths, generic arguments and types, each lemma following its rule.

At a comma a rule finds what it finds at the end, except where it looks for the comma itself: the
bounds within angle brackets. There the end is no place where the rule could stop.
-/

set_option autoImplicit false

namespace EnumCatalog.Syntax

open Reader

variable {tail : List Token}

/-! ## 1. Attributes and visibilities -/

theorem carries_readIdent (ht : ClosedBy [','] tail) :
    Carries tail Path.readIdent Path.readIdent :=
  .ahead fun ts => (carries_require_ahead ht.overlooks_atPathWord ts).bind fun _ => carries_anyIdent

theorem carries_readPlain (ht : ClosedBy [','] tail) :
    Carries tail Path.readPlain Path.readPlain :=
  .printing _ <| (carries_op? ht rfl).bind fun _ => (carries_readIdent ht).bind fun _ =>
    (Carries.collect <| (carries_op? ht rfl).bind fun _ =>
      .branch ((carries_readIdent ht).bind fun _ => carries_pure _) (carries_pure none)).bind
        fun _ => carries_pure _

section

variable {expr expr' : Reader Unit}

theorem carries_readAfter (h : Carries [] expr expr') (p : Path) :
    Carries [] (Meta.readAfter expr p) (Meta.readAfter expr' p) := by
  refine .ahead_nil fun ts => .branch ?_ (.branch ?_ (carries_pure _))
  · exact carries_anyGroup.silent.bind fun x => carries_pure (Meta.list p x.1 x.2)
  · refine (carries_op "=").silent.bind fun _ => .ahead_nil fun ts => .branch ?_ ?_
    · exact (carries_literal closedBy_nil).captured.bind fun x => carries_pure (Meta.value p x.2)
    · exact (carries_require id).bind fun _ => h.captured.bind fun x =>
        carries_pure (Meta.value p x.2)

theorem carries_read (h : Carries [] expr expr') :
    Carries [] (Meta.read expr) (Meta.read expr') :=
  .printing _ <| (carries_sees_nil _).bind fun _ =>
    .branch (carries_anyIdent.bind fun i => carries_readAfter h (.ofIdent i))
      ((carries_readPlain closedBy_nil).bind fun p => carries_readAfter h p)

theorem carries_readBracket (h : Carries [] expr expr') (inner : Bool) :
    Carries tail (Attribute.readBracket expr inner) (Attribute.readBracket expr' inner) :=
  ((carries_read h).inGroup .bracket).bind fun m => carries_pure (Attribute.mk inner m)

theorem carries_readOuter (h : Carries [] expr expr') (ht : ClosedBy [','] tail) :
    Carries tail (Attribute.readOuter expr) (Attribute.readOuter expr') :=
  .collect <| (carries_sees (ht.overlooks_atOp rfl)).bind fun _ => .branch
    (((carries_op "#").bind fun _ => carries_readBracket h false).printing _ |>.map some)
    (carries_pure none)

theorem carries_readInner (h : Carries [] expr expr') :
    Carries [] (Attribute.readInner expr) (Attribute.readInner expr') := by
  refine .collect <| .ahead_nil fun ts => .branch ?_ (carries_pure none)
  exact (((carries_op "#").bind fun _ => (carries_op "!").bind fun _ =>
    carries_readBracket h true).printing _).map some

end

theorem carries_visibility : Carries [] Visibility.read Visibility.read := by
  refine .printing _ <| (carries_word? closedBy_nil "pub").bind fun _ =>
    .branch (.ahead_nil fun ts => ?_) (carries_pure _)
  split
  · refine .branch (.inGroup _ ?_) (.branch (.inGroup _ ?_) (carries_pure _))
    · exact (carries_word closedBy_nil "in").bind fun _ => (carries_readPlain closedBy_nil).bind fun _ =>
        carries_pure _
    · exact carries_anyIdent.bind fun _ => carries_pure _
  · exact carries_pure _

namespace Grammar

/-! ## 2. Grammars that read more -/

/-- Nothing is valid, or the rules are those of the language. -/
def IsTied (g : Grammar) : Prop := g = nothing ∨ ∃ g₀, g = rules g₀

/-- What `g` reads `g'` reads as well; types, patterns and expressions also in front of a comma. -/
structure Below (g g' : Grammar) : Prop where
  tied : g.IsTied
  tied' : g'.IsTied
  type {tail : List Token} (ht : ClosedBy [','] tail) (plus : Bool) :
    Carries tail (g.type plus) (g'.type plus)
  bound {tail : List Token} (ht : ClosedBy [','] tail) (allowCaptures allowConst : Bool) :
    Carries tail (g.bound allowCaptures allowConst) (g'.bound allowCaptures allowConst)
  pattern {tail : List Token} (ht : ClosedBy [','] tail) : Carries tail g.pattern g'.pattern
  expr {tail : List Token} (ht : ClosedBy [','] tail) (struct : Bool) :
    Carries tail (g.expr struct) (g'.expr struct)
  unary {tail : List Token} (ht : ClosedBy [','] tail) (struct : Bool) :
    Carries tail (g.unary struct) (g'.unary struct)
  operators {tail : List Token} (ht : ClosedBy [','] tail) (struct : Bool) (base : Precedence)
    (left : ExprShape) : Carries tail (g.operators struct base left) (g'.operators struct base left)
  operand {tail : List Token} (ht : ClosedBy [','] tail) (struct : Bool) (p : Precedence)
    (right : ExprShape) : Carries tail (g.operand struct p right) (g'.operand struct p right)
  early : Carries [] g.early g'.early
  statements : Carries [] g.statements g'.statements
  useTree (allowRoot : Bool) : Carries [] (g.useTree allowRoot) (g'.useTree allowRoot)
  item : Carries [] g.item g'.item

theorem overlooks_atArguments (ht : ClosedBy [','] tail) (exprStyle : Bool) :
    Overlooks tail (atArguments exprStyle) :=
  ((((overlooks_const _).and (ht.overlooks_atOp rfl)).and (ht.overlooks_atOp rfl).not).and
    (ht.overlooks_atOp rfl).not).or (ht.overlooks_colons_and (ht.overlooks_atOp rfl))

theorem overlooks_atFunctionArgs (ht : ClosedBy [','] tail) : Overlooks tail atFunctionArgs :=
  (ht.overlooks_atGroup _).or (ht.overlooks_colons_and (ht.overlooks_atGroup _))

theorem overlooks_atBound (ht : ClosedBy [','] tail) : Overlooks tail atBound :=
  (((ht.overlooks_atIdent.or (ht.overlooks_atOp rfl)).or (ht.overlooks_atOp rfl)).or
    ht.overlooks_atLifetime).or (ht.overlooks_atGroup _)

/-- At the end there is no bound. -/
theorem IsTied.fails_bound {g : Grammar} (h : g.IsTied) (allowCaptures allowConst : Bool) :
    Fails (g.bound allowCaptures allowConst) [] := by
  obtain rfl | ⟨g₀, rfl⟩ := h
  · exact fun _ _ => rfl
  · exact fun _ _ => rfl

namespace Below

variable {g g' : Grammar} (h : g.Below g')

include h

theorem value (ht : ClosedBy [','] tail) : Carries tail g.value g'.value :=
  (h.expr ht true).discard

theorem outerAttrs (ht : ClosedBy [','] tail) : Carries tail g.outerAttrs g'.outerAttrs :=
  carries_readOuter (h.value closedBy_nil) ht

theorem innerAttrs : Carries [] g.innerAttrs g'.innerAttrs := carries_readInner (h.value closedBy_nil)

theorem block : Carries tail g.block g'.block := h.statements.inGroup .brace

theorem body : Carries tail g.body g'.body :=
  .inGroup .brace <| h.innerAttrs.bind fun attrs => h.statements.bind fun _ => carries_pure attrs

/-! ## 3. Generic arguments and paths -/

theorem constArgument (ht : ClosedBy [','] tail) :
    Carries tail g.constArgument g'.constArgument := by
  refine .ahead fun ts => ?_
  refine .test ht.overlooks_atLiteral (carries_literal ht) (.test ht.overlooks_atName ?_ ?_)
  · exact (carries_name ht).silent.bind fun i => carries_emit _
  · exact (h.outerAttrs ht).bind fun _ => h.body.discard

/-- Bounds up to tokens that end them. -/
theorem boundsUntil (ht : ClosedBy [','] tail) {stops : List Token → Bool}
    (hcons : ∀ t ts, stops (t :: ts ++ tail) = stops (t :: ts))
    (hnil : stops [] = true → stops tail = true) :
    Carries tail (g.boundsUntil stops) (g'.boundsUntil stops) := by
  refine .repeatWhile (.unless hcons hnil ?_ ?_)
  · exact (h.bound ht false true).bind fun _ => carries_op? ht rfl
  · exact (h.tied.fails_bound false true).bind _

omit h in
theorem angleList (ht : ClosedBy [','] tail) {item item' : Reader Bool}
    (hitem : Carries tail item item') :
    Carries tail (Grammar.angleList item) (Grammar.angleList item') := by
  refine .bind (.collect ?_) fun _ => carries_pure _
  refine (carries_sees (ht.overlooks_atOp rfl)).bind fun _ => .branch (carries_pure none) ?_
  refine hitem.captured.bind fun x => ?_
  obtain ⟨isLifetime, f⟩ := x
  refine (carries_sees (ht.overlooks_atOp rfl)).bind fun _ => .branch (carries_pure _) ?_
  exact (carries_op ",").silent.bind fun _ => carries_pure _

theorem argument (ht : ClosedBy [','] tail) : Carries tail g.argument g'.argument := by
  have hconst : Overlooks tail fun ts => atLiteral ts || atGroup .brace ts :=
    ht.overlooks_atLiteral.or (ht.overlooks_atGroup _)
  refine .ahead fun ts => .test (ht.overlooks_atLifetime.and_tail rfl (ht.overlooks_atOp rfl).not) ?_
    (.test hconst ?_ ?_)
  · exact (carries_lifetime ht).bind fun _ => carries_pure true
  · exact (h.constArgument ht).bind fun _ => carries_pure false
  · refine .get fun start => (h.type ht true).bind fun shape => .branch ?_ (carries_pure false)
    refine (carries_op? ht rfl).bind fun _ => .branch ?_ ((carries_op? ht rfl).bind fun _ => .branch ?_ ?_)
    · refine (carries_forgetMention start).bind fun _ => (carries_sees hconst).bind fun _ =>
        .branch ?_ ?_
      · exact (h.constArgument ht).bind fun _ => carries_pure false
      · exact (h.type ht true).discard.bind fun _ => carries_pure false
    · refine (carries_forgetMention start).bind fun _ => ?_
      refine (h.boundsUntil ht (fun t _ => ?_) fun hend => ?_).bind fun _ => carries_pure false
      · cases t <;> rfl
      · cases hend
    · exact carries_pure false

theorem arguments (ht : ClosedBy [','] tail) : Carries tail g.arguments g'.arguments := by
  refine .printing _ ((carries_op? ht rfl).bind fun _ => (carries_op "<").bind fun _ => ?_)
  refine (angleList ht (h.argument ht)).bind fun _ => (carries_op ">").bind fun _ => ?_
  exact carries_pure _

theorem segment (ht : ClosedBy [','] tail) (exprStyle : Bool) :
    Carries tail (g.segment exprStyle) (g'.segment exprStyle) := by
  refine .printing _ <| .ahead fun ts => .test (ht.overlooks_atWordIn _) ?_ ?_
  · exact carries_anyIdent.bind fun _ => carries_pure _
  · extract_lets rest rest'
    have hrest (i : Ident) : Carries tail (rest i) (rest' i) :=
      (carries_sees (overlooks_atArguments ht _)).bind fun _ =>
        .branch ((h.arguments ht).bind fun _ => carries_pure _) (carries_pure _)
    exact .test (ht.overlooks_atWord _) (carries_anyIdent.bind hrest) ((carries_name ht).bind hrest)

theorem moreSegments (ht : ClosedBy [','] tail) (exprStyle : Bool) :
    Carries tail (g.moreSegments exprStyle) (g'.moreSegments exprStyle) := by
  refine .collect <| .ahead fun ts =>
    .test (ht.overlooks_colons_and (ht.overlooks_atGroup _).not) ?_ (carries_pure none)
  exact (carries_op "::").bind fun _ => (h.segment ht _).bind fun _ => carries_pure _

theorem path (ht : ClosedBy [','] tail) (exprStyle : Bool) :
    Carries tail (g.path exprStyle) (g'.path exprStyle) :=
  .printing _ <| (carries_op? ht rfl).bind fun _ => (h.segment ht _).bind fun _ =>
    (h.moreSegments ht _).bind fun _ => carries_pure _

theorem qualifiedPath (ht : ClosedBy [','] tail) (exprStyle : Bool) :
    Carries tail (g.qualifiedPath exprStyle) (g'.qualifiedPath exprStyle) := by
  refine .printing _ <| (carries_sees (ht.overlooks_atOp rfl)).bind fun _ => .branch ?_ ?_
  · refine .bind (.captured ?_) fun x => ?_
    · refine (carries_op "<").bind fun _ => (h.type ht true).bind fun _ =>
        (carries_word? ht "as").bind fun hasTrait => ?_
      have hend : Carries tail (op ">" >>= fun _ => pure hasTrait)
          (op ">" >>= fun _ => pure hasTrait) := (carries_op ">").bind fun _ => carries_pure _
      exact .branch ((h.path ht false).discard.bind fun _ => hend) hend
    · obtain ⟨hasTrait, f⟩ := x
      refine (carries_op "::").bind fun _ => (h.segment ht _).bind fun _ => ?_
      refine (Carries.collect ?_).bind fun _ => carries_pure _
      exact (carries_op? ht rfl).bind fun _ =>
        .branch ((h.segment ht _).bind fun _ => carries_pure _) (carries_pure none)
  · exact (h.path ht _).bind fun _ => carries_pure _

/-! ## 4. Function types -/

theorem returnType (ht : ClosedBy [','] tail) (plus : Bool) :
    Carries tail (g.returnType plus) (g'.returnType plus) :=
  (carries_op? ht rfl).bind fun _ =>
    .branch ((h.type ht plus).bind fun _ => carries_pure _) (carries_pure none)

theorem functionArgs (ht : ClosedBy [','] tail) : Carries tail g.functionArgs g'.functionArgs :=
  (Carries.inGroup .paren (h.type closedBy_nil true).commaList).discard.bind fun _ =>
    (h.returnType ht false).bind fun _ => carries_pure _

theorem typePath (ht : ClosedBy [','] tail) : Carries tail g.typePath g'.typePath := by
  refine (h.qualifiedPath ht false).silent.bind fun q =>
    (carries_sees (overlooks_atFunctionArgs ht)).bind fun _ => .branch ?_ ?_
  · refine (carries_emit _).bind fun _ => (Carries.repeatWhile ?_).bind fun _ => carries_pure _
    refine (carries_op? ht rfl).silent.discard.bind fun _ => (h.functionArgs ht).bind fun _ =>
      .branch ?_ (carries_pure false)
    exact (h.moreSegments ht false).bind fun _ =>
      (carries_sees (overlooks_atFunctionArgs ht)).bind fun _ => carries_pure _
  · exact (carries_emit _).bind fun _ => carries_pure _

omit h in
theorem abi (ht : ClosedBy [','] tail) : Carries tail Grammar.abi Grammar.abi :=
  (carries_word ht "extern").bind fun _ => (carries_sees (ht.overlooks_atLiteralOf _)).bind fun _ =>
    .branch (carries_literal ht) (carries_pure ())

omit h in
theorem abi? (ht : ClosedBy [','] tail) : Carries tail Grammar.abi? Grammar.abi? :=
  (carries_sees (ht.overlooks_atWord _)).bind fun _ => .branch (abi ht) (carries_pure ())

theorem functionTypeArg (first : Bool) :
    Carries [] (g.functionTypeArg first) (g'.functionTypeArg first) := by
  refine .get_nil fun start => ?_
  extract_lets atMutSelf mutSelf rest rest'
  have hrest (u : Unit) : Carries [] (rest u) (rest' u) := by
    refine .ahead_nil fun ts => ?_
    extract_lets selfNamed named rest rest'
    have hrest (u : Unit) : Carries [] (rest u) (rest' u) := by
      refine (carries_sees_nil _).bind fun _ => .branch ?_ (.branch ?_ ?_)
      · exact (carries_word closedBy_nil _).bind fun _ => (carries_word closedBy_nil _).bind fun _ =>
          carries_restoreSince_nil start
      · exact (carries_word closedBy_nil _).bind fun _ => carries_restoreSince_nil start
      · exact (h.type closedBy_nil true).discard.bind fun _ =>
          .branch (carries_restoreSince_nil start) (carries_pure ())
    exact .branch (carries_anyIdent.discard.bind fun _ => (carries_op ":").bind hrest) (hrest ())
  exact .branch ((carries_word closedBy_nil _).bind hrest) (hrest ())

omit h in
theorem variadic : Carries [] Grammar.variadic Grammar.variadic := by
  refine (carries_sees_nil _).bind fun _ => ?_
  have hrest : Carries [] (op "..." >>= fun _ => discard (op? ","))
      (op "..." >>= fun _ => discard (op? ",")) :=
    (carries_op "...").bind fun _ => (carries_op?_nil ",").discard
  exact .branch (carries_anyIdent.discard.bind fun _ => (carries_op ":").bind fun _ => hrest) hrest

theorem functionType (ht : ClosedBy [','] tail) : Carries tail g.functionType g'.functionType := by
  refine (carries_word? ht _).discard.bind fun _ => (abi? ht).bind fun _ =>
    (carries_word ht _).bind fun _ => (Carries.inGroup .paren ?_).bind fun _ =>
      (h.returnType ht false).discard
  refine .iterate (fun first => ?_) true
  refine carries_atEnd.bind fun _ => .branch (carries_pure none) ?_
  refine (h.outerAttrs closedBy_nil).bind fun _ => (carries_sees_nil _).bind fun _ => .branch ?_ ?_
  · exact variadic.bind fun _ => carries_pure none
  · refine (h.functionTypeArg first).bind fun _ => carries_atEnd.bind fun _ =>
      .branch (carries_pure none) ?_
    exact (carries_op ",").bind fun _ => carries_pure _

/-! ## 5. Generic parameters and bounds -/

omit h in
theorem lifetimesUntil (ht : ClosedBy [','] tail) {stops : List Token → Bool}
    (hcons : ∀ t ts, stops (t :: ts ++ tail) = stops (t :: ts))
    (hnil : stops [] = true → stops tail = true) :
    Carries tail (Grammar.lifetimesUntil stops) (Grammar.lifetimesUntil stops) := by
  refine .repeatWhile (.unless hcons hnil ?_ (fun _ _ => rfl))
  exact (carries_lifetime ht).bind fun _ => carries_op? ht rfl

omit h in
theorem afterColon (ht : ClosedBy [','] tail) {r r' : Reader Unit} (hr : Carries tail r r') :
    Carries tail (Grammar.afterColon r) (Grammar.afterColon r') := by
  refine (carries_op? ht rfl).silent.bind fun _ => .branch ?_ (carries_pure ())
  refine hr.captured.bind fun x => ?_
  exact .branch ((carries_emitTokens _).bind fun _ => carries_emit _) (carries_pure ())

theorem parameter (ht : ClosedBy [','] tail) (allowUnderscore : Bool) :
    Carries tail (g.parameter allowUnderscore) (g'.parameter allowUnderscore) := by
  refine .ahead fun ts => .test ht.overlooks_atLifetime ?_ <| .test ht.overlooks_atName ?_ <|
    .test (ht.overlooks_atWord _) ?_ ?_
  · refine (carries_lifetime ht).bind fun _ => (afterColon ht ?_).bind fun _ => carries_pure true
    refine lifetimesUntil ht (fun t _ => ?_) fun hend => ?_
    · cases t <;> rfl
    · cases hend
  · refine (carries_name ht).discard.bind fun _ => (afterColon ht ?_).bind fun _ => ?_
    · refine h.boundsUntil ht (fun t _ => ?_) fun hend => ?_
      · cases t <;> rfl
      · cases hend
    · exact (carries_op? ht rfl).bind fun _ =>
        .branch ((h.type ht true).discard.bind fun _ => carries_pure false) (carries_pure false)
  · refine (carries_word ht _).bind fun _ => (carries_name ht).discard.bind fun _ =>
      (carries_op ":").bind fun _ => (h.type ht true).discard.bind fun _ => ?_
    exact (carries_op? ht rfl).bind fun _ =>
      .branch ((h.constArgument ht).bind fun _ => carries_pure false) (carries_pure false)
  · exact (carries_require id).bind fun _ => (carries_word ht _).bind fun _ => carries_pure false

theorem binder? (ht : ClosedBy [','] tail) : Carries tail g.binder? g'.binder? := by
  refine (carries_word? ht _).bind fun _ => .branch ?_ (carries_pure false)
  refine (carries_op "<").bind fun _ => (Carries.repeatWhile ?_).bind fun _ =>
    (carries_op ">").bind fun _ => carries_pure true
  refine (carries_sees (ht.overlooks_atOp rfl)).bind fun _ => .branch (carries_pure false) ?_
  refine (h.outerAttrs ht).bind fun _ => (h.parameter ht false).discard.bind fun _ =>
    (carries_sees (ht.overlooks_atOp rfl)).bind fun _ => .branch (carries_pure false) ?_
  exact (carries_op ",").bind fun _ => carries_pure true

theorem generics : Carries [] g.generics g'.generics := by
  refine .printing _ <| (carries_sees_nil _).bind fun _ => .branch ?_ (carries_pure _)
  refine (carries_op "<").bind fun _ => (angleList closedBy_nil ?_).bind fun x => ?_
  · exact (h.outerAttrs closedBy_nil).bind fun _ => h.parameter closedBy_nil true
  · exact (carries_op ">").bind fun _ => .branch (carries_pure _) (carries_pure _)

theorem traitBound (ht : ClosedBy [','] tail) (allowConst : Bool) :
    Carries tail (g.traitBound allowConst) (g'.traitBound allowConst) := by
  refine (h.binder? ht).bind fun forAll => .ahead fun ts => ?_
  rw [ht.overlooks_atGroup, ht.overlooks_atWord]
  extract_lets isConst done named rest named' rest'
  have hnamed (u : Unit) : Carries tail (named u) (named' u) := by
    refine (h.path ht false).silent.bind fun p =>
      (carries_sees (overlooks_atFunctionArgs ht)).bind fun _ => .branch ?_ ?_
    · exact (carries_emit _).bind fun _ => (carries_op? ht rfl).silent.discard.bind fun _ =>
        (h.functionArgs ht).discard.bind fun _ => carries_pure isConst
    · exact (carries_emit _).bind fun _ => carries_pure isConst
  have hrest (u : Unit) : Carries tail (rest u) (rest' u) := by
    refine (carries_op? ht rfl).bind fun _ => .branch ?_ (hnamed ())
    exact (carries_require id).bind fun _ => (h.binder? ht).bind fun _ =>
      (carries_require id).bind hnamed
  refine .branch ((carries_require id).bind fun _ => .branch ?_ ?_) (hrest ())
  · exact (Carries.inGroup .bracket (carries_word closedBy_nil _)).bind hrest
  · exact (carries_word ht _).bind hrest

omit h in
theorem captures (ht : ClosedBy [','] tail) : Carries tail Grammar.captures Grammar.captures := by
  refine (carries_word ht _).bind fun _ => (carries_op "<").bind fun _ =>
    (Carries.repeatWhile ?_).bind fun _ => carries_op ">"
  have hmore : Carries tail
      (sees (atOp ">") >>= fun b => if b then pure false else op "," >>= fun _ => pure true)
      (sees (atOp ">") >>= fun b => if b then pure false else op "," >>= fun _ => pure true) :=
    (carries_sees (ht.overlooks_atOp rfl)).bind fun _ =>
      .branch (carries_pure false) ((carries_op ",").bind fun _ => carries_pure true)
  refine .ahead fun ts => .test (ht.overlooks_atOp rfl) (carries_pure false) <|
    .test ht.overlooks_atLifetime ((carries_lifetime ht).bind fun _ => hmore) ?_
  exact (carries_require_ahead (ht.overlooks_atName.or (ht.overlooks_atWord _)) ts).bind fun _ =>
    carries_anyIdent.discard.bind fun _ => hmore

theorem anyBound (ht : ClosedBy [','] tail) (allowCaptures allowConst : Bool) :
    Carries tail (g.anyBound allowCaptures allowConst) (g'.anyBound allowCaptures allowConst) := by
  refine .get fun start => .test ht.overlooks_atLifetime ?_ <| .test (ht.overlooks_atWord _) ?_ ?_
  · exact (carries_lifetime ht).bind fun _ => carries_pure _
  · exact (captures ht).bind fun _ => (carries_require id).bind fun _ => carries_pure _
  · extract_lets rest rest'
    have hrest (isConst : Bool) : Carries tail (rest isConst) (rest' isConst) :=
      .branch ((carries_restoreSince start).bind fun _ => carries_pure _) (carries_pure _)
    refine .test (ht.overlooks_atGroup _) ?_ ((h.traitBound ht _).bind hrest)
    exact ((h.traitBound closedBy_nil _).inGroup .paren).bind hrest

theorem bounds (ht : ClosedBy [','] tail) (plus allowCaptures allowConst : Bool) :
    Carries tail (g.bounds plus allowCaptures allowConst)
      (g'.bounds plus allowCaptures allowConst) := by
  refine (h.bound ht _ _).bind fun _ => (Carries.collect ?_).bind fun _ => ?_
  · have hnext := (overlooks_atBound ht).or ((overlooks_const allowConst).and
      ((ht.overlooks_atGroup .bracket).or (ht.overlooks_atWord "const")))
    refine .ahead fun ts => .test (((overlooks_const plus).and (ht.overlooks_atOp rfl)).and_tail
      (by cases plus <;> rfl) hnext) ?_ (carries_pure none)
    exact (carries_op "+").bind fun _ => (h.bound ht _ _).bind fun _ => carries_pure _
  · exact .branch ((carries_op? ht rfl).bind fun _ => carries_pure _) (carries_pure _)

theorem objectBounds (ht : ClosedBy [','] tail) (plus allowCaptures allowConst : Bool) :
    Carries tail (g.objectBounds plus allowCaptures allowConst)
      (g'.objectBounds plus allowCaptures allowConst) :=
  (h.bounds ht _ _ _).bind fun _ => (carries_require id).bind fun _ => carries_pure _

theorem predicate : Carries [] g.predicate g'.predicate := by
  refine .ahead_nil fun ts => .branch ?_ ?_
  · refine (carries_lifetime closedBy_nil).bind fun _ => (carries_op ":").bind fun _ => ?_
    exact lifetimesUntil closedBy_nil (fun t ts => by rw [List.append_nil]) id
  · refine (h.binder? closedBy_nil).discard.bind fun _ =>
      (h.type closedBy_nil true).discard.bind fun _ => (carries_op ":").bind fun _ => ?_
    exact h.boundsUntil closedBy_nil (fun t ts => by rw [List.append_nil]) id

theorem whereClause : Carries [] g.whereClause g'.whereClause := by
  refine .printing _ <| (carries_word? closedBy_nil _).bind fun _ => .branch ?_ (carries_pure _)
  refine (Carries.repeatWhile ?_).captured.bind fun x => .branch (carries_pure _) (carries_pure _)
  exact (carries_sees_nil _).bind fun _ => .branch (carries_pure false) <|
    h.predicate.bind fun _ => carries_op?_nil ","

/-! ## 6. Types -/

theorem plusBounds (ht : ClosedBy [','] tail) : Carries tail g.plusBounds g'.plusBounds :=
  .repeatWhile <| (carries_op? ht rfl).bind fun _ =>
    .branch ((h.bound ht _ _).discard.bind fun _ => carries_pure true) (carries_pure false)

theorem parenType (ht : ClosedBy [','] tail) (plus : Bool) :
    Carries tail (g.parenType plus) (g'.parenType plus) := by
  refine .bind (.inGroup .paren ?_) fun inside => ?_
  · refine .ahead_nil fun ts => .branch (carries_pure _) <| .branch ?_ <| .branch ?_ ?_
    · exact (h.objectBounds closedBy_nil _ _ _).discard.bind fun _ => carries_pure _
    · exact (h.traitBound closedBy_nil _).discard.bind fun _ => carries_pure _
    · refine (h.type closedBy_nil true).bind fun first => (carries_op?_nil ",").bind fun _ =>
        .branch ?_ (carries_pure _)
      exact (h.type closedBy_nil true).commaList.discard.bind fun _ => carries_pure _
  · cases inside with
    | tuple => exact carries_pure _
    | lifetimeBounds => exact carries_pure _
    | maybeBound =>
      exact (carries_sees (ht.overlooks_atOp rfl)).bind fun _ => (h.plusBounds ht).bind fun _ =>
        carries_pure _
    | single first =>
      exact (carries_sees (ht.overlooks_atOp rfl)).bind fun _ =>
        .branch ((h.plusBounds ht).bind fun _ => carries_pure _) (carries_pure _)

theorem pathType (ht : ClosedBy [','] tail) (plus forAll : Bool) :
    Carries tail (g.pathType plus forAll) (g'.pathType plus forAll) := by
  refine (h.typePath ht).bind fun x => ?_
  obtain ⟨q, hasParens⟩ := x
  refine .branch (carries_pure _) <| .ahead fun ts => .test ((((ht.overlooks_atOp rfl).and (ht.overlooks_atOp rfl).not).and (overlooks_const _)).and
    (overlooks_const _)) ?_ <| .test ((overlooks_const _).or ((overlooks_const _).and
      (ht.overlooks_atOp rfl))) ?_ (carries_pure _)
  · exact (carries_op "!").bind fun _ => carries_anyGroup.discard.bind fun _ => carries_pure _
  · refine (Carries.collect ?_).bind fun _ => ?_
    · refine .ahead fun ts => .test (((overlooks_const plus).and (ht.overlooks_atOp rfl)).and_tail
        (by cases plus <;> rfl) (overlooks_atBound ht)) ?_ (carries_pure none)
      exact (carries_op "+").bind fun _ => (h.bound ht _ _).bind fun _ => carries_pure _
    · exact .branch ((carries_op? ht rfl).bind fun _ => carries_pure _) (carries_pure _)

theorem anyType (ht : ClosedBy [','] tail) (plus : Bool) :
    Carries tail (g.anyType plus) (g'.anyType plus) := by
  refine .get fun start => (h.binder? ht).bind fun forAll => .ahead fun ts => ?_
  extract_lets other pointed rest pointed' rest'
  have hother (u : Unit) : Carries tail (other u) (other u) := carries_pure _
  have hpointed (u : Unit) : Carries tail (pointed u) (pointed' u) :=
    (h.type ht false).discard.bind fun _ => carries_pure _
  have hrest (u : Unit) : Carries tail (rest u) (rest' u) := by
    have hpath : Overlooks tail fun ts => atPathWord ts || atOp "::" ts || atOp "<" ts :=
      (ht.overlooks_atPathWord.or (ht.overlooks_atOp rfl)).or (ht.overlooks_atOp rfl)
    -- The tests of the rule in their order, and then what each kind of type goes on with.
    refine .test (ht.overlooks_atGroup _) (h.parenType ht plus) <|
      .test (ht.overlooks_atWordIn _) ?_ <| .test hpath (h.pathType ht plus forAll) <|
      .test (ht.overlooks_atWord _) ?_ <| .test (ht.overlooks_atGroup _) ?_ <|
      .test (ht.overlooks_atOp rfl) ?_ <| .test (ht.overlooks_atOp rfl) ?_ <| .test (ht.overlooks_atOp rfl) ?_ <|
      .test (ht.overlooks_atWord _) ?_ <| .test (ht.overlooks_atWord _) ?_ ?_
    · exact (h.functionType ht).bind hother
    · exact (carries_word ht _).bind fun _ => (carries_op? ht rfl).bind fun _ =>
        (h.objectBounds ht _ _ _).discard.bind fun _ =>
          .branch ((carries_restoreSince start).bind hother) (hother ())
    · refine .bind (.inGroup .bracket ?_) hother
      exact (h.type closedBy_nil true).discard.bind fun _ => (carries_op? closedBy_nil rfl).bind fun _ =>
        .branch (h.value closedBy_nil) (carries_pure ())
    · exact (carries_op "*").bind fun _ => (carries_word? ht _).bind fun _ =>
        .branch (hpointed ()) ((carries_word ht _).bind hpointed)
    · exact (carries_op "&").bind fun _ => (carries_lifetime? ht).discard.bind fun _ =>
        (carries_word? ht _).discard.bind fun _ => hpointed ()
    · exact (carries_op "!").bind hother
    · exact (carries_word ht _).bind fun _ => (h.objectBounds ht _ _ _).discard.bind hother
    · exact (carries_word ht _).bind hother
    · exact (carries_require_ahead ht.overlooks_atLifetime ts).bind fun _ => h.objectBounds ht _ _ _
  have hwords := ht.overlooks_atPathWord.or (ht.overlooks_atWordIn ["fn", "unsafe", "extern"])
  exact .branch ((carries_require_ahead hwords ts).bind hrest) (hrest ())

end Below

end Grammar

end EnumCatalog.Syntax
