import EnumCatalog.Proofs.Operand

/-!
# Types made of paths

Paths as types, as bounds and as generic arguments, and references to them. Everything here is told
from all else by its first token, which is one that opens a path (`OpensPath`), and it is over
before a token that continues none (`EndsType`).

A list between angle brackets is not in brackets for the lexer, so it is followed item by item up to
the closing angle bracket (`AngleList`).
-/

set_option autoImplicit false

namespace EnumCatalog.Syntax

open Reader

namespace Grammar

/-! ## 1. Where a type ends -/

/-- A type that is a path is over before these tokens. -/
structure EndsType (rest : List Token) : Prop where
  ends : NamePath.Ends rest
  bang : atOp "!" rest = false
  plus : atOp "+" rest = false
  paren : atGroup .paren rest = false

variable (g : Grammar) {ts mid rest : List Token} {p : Path} {f f' : Fragment}

theorem endsType_of_closedBy (h : ClosedBy [',', '>'] rest) : EndsType rest where
  ends := ⟨h.not_atOp (by decide), h.not_atOp (by decide)⟩
  bang := h.not_atOp (by decide)
  plus := h.not_atOp (by decide)
  paren := h.not_atGroup .paren

theorem endsType_brace (inner ts : List Token) : EndsType (.brace inner :: ts) :=
  ⟨⟨rfl, rfl⟩, rfl, rfl, rfl⟩

theorem EndsType.not_atFunctionArgs (h : EndsType rest) : atFunctionArgs rest = false := by
  unfold atFunctionArgs
  rw [h.paren, h.ends.colons]
  rfl

/-! ## 2. Paths as types -/

theorem reads_binder?_of_not (h : atWord "for" ts = false) : Reads g.binder? ts ts false .empty := by
  refine (reads_word?_of_not h).andThen ?_
  exact reads_pure false ts

theorem reads_typePath (hopens : OpensPath ts) (hpath : Reads (g.path false) ts rest p f)
    (hrest : EndsType rest) : Reads g.typePath ts rest (⟨none, p⟩, false) p.fragment := by
  have hangle := hopens.not_atOp (s := "<") (by decide)
  refine (g.reads_qualifiedPath_of_path hangle hpath).silent.andThen ?_
  have hemit : Reads (do emit (QualifiedPath.fragment ⟨none, p⟩); return (⟨none, p⟩, false))
      rest rest ((⟨none, p⟩, false) : QualifiedPath × Bool) p.fragment :=
    (reads_emit _ rest).before (reads_pure _ rest)
  cases hbare : QualifiedPath.endsBare ⟨none, p⟩ with
  | true =>
    refine (reads_sees atFunctionArgs rest).andThen ?_
    rw [hrest.not_atFunctionArgs]
    exact hemit
  | false => exact hemit

/-- A path is a simple type if it is one segment without anything in front. -/
def isSimple (p : Path) : Bool := !p.leading && p.segments.length == 1

theorem reads_pathType (plus : Bool) (hopens : OpensPath ts)
    (hpath : Reads (g.path false) ts rest p f) (hrest : EndsType rest) :
    Reads (g.pathType plus false) ts rest (.path false (isSimple p)) p.fragment := by
  refine (g.reads_typePath hopens hpath hrest).before ?_
  refine (reads_ahead rest).andThen ?_
  simp only [hrest.bang, hrest.plus, Bool.false_and, Bool.and_false, Bool.or_false,
    Bool.false_eq_true, if_false]
  simpa [isSimple] using reads_pure (TypeShape.path false (isSimple p)) rest

theorem reads_anyType_path (plus : Bool) (hopens : OpensPath ts)
    (hpath : Reads (g.path false) ts rest p f) (hrest : EndsType rest) :
    Reads (g.anyType plus) ts rest (.path false (isSimple p)) p.fragment := by
  have hword : ∀ w ∈ ["for", "fn", "unsafe", "extern"], atWord w ts = false := by
    intro w hw
    have hsub : ∀ w ∈ ["for", "fn", "unsafe", "extern"],
        w ∈ Ident.reservedWords ∧ w ∉ Ident.pathWords := by decide
    exact hopens.not_atWord (hsub w hw).1 (hsub w hw).2
  refine reads_get fun _ _ => ?_
  refine (g.reads_binder?_of_not (hword "for" (by decide))).andThen ?_
  refine (reads_ahead ts).andThen ?_
  have hitems : atWordIn ["fn", "unsafe", "extern"] ts = false := by
    simp [atWordIn, hword]
  have hpathAhead : (atPathWord ts || atOp "::" ts || atOp "<" ts) = true := by
    rw [hopens.atPath]
    rfl
  simp only [hopens.not_atGroup .paren, hitems, hpathAhead, Bool.false_eq_true, if_false, if_true]
  exact g.reads_pathType plus hopens hpath hrest

theorem reads_anyType_name (plus : Bool) (q : NamePath) (hrest : EndsType rest) :
    Reads (g.anyType plus) (q.tokens ++ rest) rest (.path false (isSimple q.toPath)) q.fragment := by
  rw [← q.fragment_toPath]
  exact g.reads_anyType_path plus (q.opensPath rest) (NamePath.reads_path g false q hrest.ends)
    hrest

/-! ## 3. Bounds -/

theorem reads_traitBound (allowConst : Bool) (q : NamePath) (hrest : EndsType rest) :
    Reads (g.traitBound allowConst) (q.tokens ++ rest) rest false q.fragment := by
  have hopens := q.opensPath rest
  refine (g.reads_binder?_of_not (hopens.not_atWord (by decide) (by decide))).andThen ?_
  refine (reads_ahead _).andThen ?_
  simp only [hopens.not_atGroup .bracket,
    hopens.not_atWord (w := "const") (by decide) (by decide), Bool.or_false, Bool.false_eq_true,
    if_false]
  refine (reads_op?_of_not (hopens.not_atOp (by decide))).andThen ?_
  refine (NamePath.reads_path g false q hrest.ends).silent.andThen ?_
  have hemit : Reads (do emit (QualifiedPath.fragment ⟨none, q.toPath⟩); return false)
      rest rest false q.fragment := by
    rw [← q.fragment_toPath]
    exact (reads_emit _ rest).before (reads_pure _ rest)
  cases hbare : QualifiedPath.endsBare ⟨none, q.toPath⟩ with
  | true =>
    refine (reads_sees atFunctionArgs rest).andThen ?_
    rw [hrest.not_atFunctionArgs]
    exact hemit
  | false => exact hemit

theorem reads_anyBound (allowCaptures allowConst : Bool) (q : NamePath) (hrest : EndsType rest) :
    Reads (g.anyBound allowCaptures allowConst) (q.tokens ++ rest) rest .trait q.fragment := by
  have hopens := q.opensPath rest
  refine reads_get fun _ _ => ?_
  simp only [hopens.not_atLifetime, hopens.not_atWord (w := "use") (by decide) (by decide),
    hopens.not_atGroup .paren, Bool.false_eq_true, if_false]
  exact (g.reads_traitBound allowConst q hrest).before (reads_pure _ rest)

/-- A type that is known by one trait. -/
theorem reads_objectBounds {allowCaptures allowConst : Bool}
    (hbound : Reads (g.bound allowCaptures allowConst) ts rest .trait f) :
    Reads (g.objectBounds false allowCaptures allowConst) ts rest (.bounds true) f := by
  have hbounds : Reads (g.bounds false allowCaptures allowConst) ts rest ([.trait], false) f := by
    refine hbound.before ?_
    refine (reads_collect_nil ?_).andThen ?_
    · exact (reads_ahead rest).andThen (reads_pure none rest)
    · exact (reads_pure false rest).andThen (reads_pure _ rest)
  exact hbounds.before ((reads_require rfl rest).andThen (reads_pure _ rest))

theorem reads_anyType_dyn (q : NamePath) (hrest : EndsType rest) :
    Reads ((rules g).anyType false) (.word "dyn" :: (q.tokens ++ rest)) rest .other
      (.plain [.word "dyn"] ++ q.fragment) := by
  refine reads_get fun _ _ => ?_
  refine (reads_binder?_of_not _ rfl).andThen ?_
  refine (reads_ahead _).andThen ?_
  refine (reads_word (w := "dyn") rfl _).bind ?_
  refine (reads_op?_of_not ((q.opensPath rest).not_atOp (by decide))).andThen ?_
  have hbound : Reads ((rules g).bound false false) (q.tokens ++ rest) rest .trait q.fragment :=
    g.reads_anyBound false false q hrest
  exact ((rules g).reads_objectBounds hbound).discard.before (reads_pure _ rest)

/-! ## 4. References -/

/-- A reference, with what stands between the sign and the type. -/
theorem reads_anyType_reference (plus : Bool) {after after' : List Token} {b b' : Bool}
    {shape : TypeShape} {fl fm : Fragment} (j : Bool) (hlifetime : Reads lifetime? ts after b fl)
    (hmut : Reads (word? "mut") after after' b' fm)
    (htype : Reads (g.type false) after' rest shape f) :
    Reads (g.anyType plus) (.punct '&' j :: ts) rest .other
      (.plain [.punct '&' false] ++ (fl ++ (fm ++ f))) := by
  have hclosed : ClosedBy ['&'] (.punct '&' j :: ts) := closedBy_punct List.mem_cons_self j ts
  have hamp : atOp "&" (.punct '&' j :: ts) = true := by cases j <;> rfl
  have hword : atPathWord (.punct '&' j :: ts) = false := rfl
  refine reads_get fun _ _ => ?_
  refine (g.reads_binder?_of_not rfl).andThen ?_
  refine (reads_ahead _).andThen ?_
  simp only [hclosed.not_atGroup, hclosed.not_atWord, hword, atWordIn, List.any_cons, List.any_nil,
    hclosed.not_atOp (s := "::") (by decide), hclosed.not_atOp (s := "<") (by decide),
    hclosed.not_atOp (s := "*") (by decide), hamp, Bool.or_false, Bool.false_eq_true, if_false,
    if_true]
  refine (reads_op hamp rfl).bind ?_
  refine hlifetime.discard.bind ?_
  exact hmut.discard.bind (htype.discard.before (reads_pure _ rest))

theorem reads_lifetime?_of_at (i : Ident) (ts : List Token) :
    Reads lifetime? (.lifetime i :: ts) ts true (.plain [.lifetime i]) :=
  (reads_sees atLifetime _).andThen ((reads_lifetime i ts).before (reads_pure true ts))

theorem reads_lifetime?_of_not (h : atLifetime ts = false) :
    Reads lifetime? ts ts false .empty := by
  refine (reads_sees atLifetime ts).andThen ?_
  rw [h]
  exact reads_pure false ts

/-! ## 5. Lists between angle brackets -/

/-- A round of a list between angle brackets. -/
def angleRound (item : Reader Bool) : Reader (Option (Bool × Fragment × Bool)) := do
  if ← sees (atOp ">") then return none
  let (isLifetime, f) ← captured item
  if ← sees (atOp ">") then return some (isLifetime, f, false)
  silent (op ",")
  return some (isLifetime, f, true)

/-- Items up to a closing angle bracket, each with what it prints as and whether a comma follows it.
-/
inductive AngleList (item : Reader Bool) (rest : List Token) :
    List Token → List (Bool × Fragment × Bool) → Prop
  | nil : AngleList item rest rest []
  | last {ts : List Token} {b : Bool} {f : Fragment} (hat : atOp ">" ts = false)
    (hlt : rest.length < ts.length) (h : Reads item ts rest b f) :
    AngleList item rest ts [(b, f, false)]
  | more {ts mid : List Token} {j b : Bool} {f : Fragment} {items : List (Bool × Fragment × Bool)}
    (hat : atOp ">" ts = false) (hlt : mid.length < ts.length)
    (h : Reads item ts (.punct ',' j :: mid) b f) (hs : AngleList item rest mid items) :
    AngleList item rest ts ((b, f, true) :: items)

theorem AngleList.collects {item : Reader Bool} {items : List (Bool × Fragment × Bool)}
    (h : AngleList item rest ts items) (hrest : atOp ">" rest = true) :
    Collects (angleRound item) ts rest items .empty := by
  have hstop : Collects (angleRound item) rest rest [] .empty := by
    refine .stop ((reads_sees (atOp ">") rest).andThen ?_)
    rw [hrest]
    exact reads_pure none rest
  -- Item by item: after each there is a comma, or the bracket that closes the list.
  induction h with
  | nil => exact hstop
  | @last ts b f hat hlt h =>
    refine Collects.round (f := .empty) (g := .empty) ?_ hlt hstop
    refine (reads_sees (atOp ">") ts).andThen ?_
    rw [hat]
    refine h.captured.andThen ((reads_sees (atOp ">") rest).andThen ?_)
    rw [hrest]
    exact reads_pure _ rest
  | @more ts mid j b f items hat hlt h hs ih =>
    refine Collects.round (f := .empty) (g := .empty) ?_ hlt ih
    have hcomma : atOp ">" (.punct ',' j :: mid) = false := atChars_of_ne (by decide) [] j mid
    refine (reads_sees (atOp ">") ts).andThen ?_
    rw [hat]
    refine h.captured.andThen ((reads_sees (atOp ">") _).andThen ?_)
    rw [hcomma]
    exact (reads_comma j mid).silent.andThen (reads_pure _ mid)

/-- The items in the order in which they print. -/
def sortedItems (items : List (Bool × Fragment × Bool)) : List (Bool × Fragment × Bool) :=
  items.filter (·.1) ++ items.filter (!·.1)

/-- A list of one item. -/
theorem AngleList.single (comma : Bool) {item : Reader Bool} {arg : List Token} {b : Bool}
    (hne : arg ≠ []) (hat : atOp ">" (arg ++ (lastComma comma ++ rest)) = false)
    (h : Reads item (arg ++ (lastComma comma ++ rest)) (lastComma comma ++ rest) b f) :
    AngleList item rest (arg ++ (lastComma comma ++ rest)) [(b, f, comma)] := by
  have hpos : 0 < arg.length := List.length_pos_iff.mpr hne
  cases comma with
  | true =>
    refine .more hat ?_ h .nil
    simp [lastComma]
    omega
  | false =>
    refine .last hat ?_ h
    simp [lastComma]
    omega

theorem AngleList.reads {item : Reader Bool} {items : List (Bool × Fragment × Bool)}
    (h : AngleList item rest ts items) (hrest : atOp ">" rest = true) :
    Reads (angleList item) ts rest
      ((sortedItems items).map (·.2.1), ((sortedItems items).getLast?.map (·.2.2)).getD false)
      .empty :=
  (h.collects hrest).reads.andThen (reads_pure _ rest)

/-! ## 6. Generic arguments -/

/-- Generic arguments that have been read one by one. -/
def anglesOf (turbofish : Bool) (items : List (Bool × Fragment × Bool)) : GenericArgs where
  turbofish := turbofish
  args := (sortedItems items).map (·.2.1)
  trailing := ((sortedItems items).getLast?.map (·.2.2)).getD false

/-- A type as a generic argument. -/
theorem reads_argument {shape : TypeShape} (hlifetime : atLifetime ts = false)
    (hliteral : atLiteral ts = false) (hbrace : atGroup .brace ts = false)
    (htype : Reads (g.type true) ts rest shape f) (hrest : ClosedBy [',', '>'] rest) :
    Reads g.argument ts rest false f := by
  refine (reads_ahead ts).andThen ?_
  simp only [hlifetime, hliteral, hbrace, Bool.or_false, Bool.false_and, Bool.false_eq_true,
    if_false]
  refine reads_get fun _ _ => ?_
  refine htype.before ?_
  cases hsimple : shape == TypeShape.path false true with
  | true =>
    refine (reads_op?_of_not (hrest.not_atOp (by decide))).andThen ?_
    exact (reads_op?_of_not (hrest.not_atOp (by decide))).andThen (reads_pure false rest)
  | false => exact reads_pure false rest

/-- Generic arguments, with or without double colons in front. The second of those touches the angle
bracket. -/
theorem reads_arguments (turbofish j k : Bool) {inner : List Token}
    {items : List (Bool × Fragment × Bool)}
    (h : AngleList g.argument (.punct '>' k :: rest) inner items) :
    Reads g.arguments
      ((if turbofish then [.punct ':' true, .punct ':' true] else []) ++ .punct '<' j :: inner) rest
      (anglesOf turbofish items) (anglesOf turbofish items).fragment := by
  have hclose : atOp ">" (.punct '>' k :: rest) = true := by cases k <;> rfl
  have hturbofish : Reads (op? "::")
      ((if turbofish then [.punct ':' true, .punct ':' true] else []) ++ .punct '<' j :: inner)
      (.punct '<' j :: inner) turbofish
      (.plain (if turbofish then Token.operator [':', ':'] else [])) := by
    cases turbofish with
    | true => exact reads_op?_of_at rfl rfl
    | false => exact reads_op?_of_not (atChars_of_ne (by decide) _ j _)
  have hend : Reads (do op ">"; return anglesOf turbofish items) (.punct '>' k :: rest) rest
      (anglesOf turbofish items) (.plain [.punct '>' false]) :=
    (reads_op hclose rfl).before (reads_pure _ rest)
  have hopen : Reads (op "<") (.punct '<' j :: inner) inner () (.plain [.punct '<' false]) :=
    reads_op (by cases j <;> rfl) rfl
  exact Reads.printing (hturbofish.bind (hopen.bind ((h.reads hclose).andThen hend)))

/-- One generic argument as it prints. -/
theorem tokens_anglesOf_single (turbofish comma : Bool) (f : Fragment) :
    (anglesOf turbofish [(false, f, comma)]).fragment.tokens =
      (if turbofish then Token.operator [':', ':'] else []) ++ .punct '<' false ::
        (f.tokens ++ (lastComma comma ++ [.punct '>' false])) := by
  cases comma <;>
    simp [anglesOf, sortedItems, GenericArgs.fragment, Fragment.commaSeparated, Fragment.plain,
      lastComma]

/-- A name with generic arguments is a segment. -/
theorem reads_segment_generic {i : Ident} (hi : i.isName = true) {a : GenericArgs}
    (hat : atArguments false ts = true) (hargs : Reads g.arguments ts rest a f) :
    Reads (g.segment false) (.ident i :: ts) rest ⟨i, some a⟩ (Segment.fragment ⟨i, some a⟩) := by
  have hword : ∀ w ∈ Ident.reservedWords, atWord w (.ident i :: ts) = false :=
    fun w hw => Ident.not_isWord_of_isName hi hw
  have hwords : atWordIn ["super", "self", "crate", "try"] (.ident i :: ts) = false := by
    simp only [atWordIn, List.any_cons, List.any_nil, hword "super" (by decide),
      hword "self" (by decide), hword "crate" (by decide), hword "try" (by decide), Bool.or_false]
  refine Reads.printing (f := .plain [.ident i] ++ f) ?_
  refine (reads_ahead _).andThen ?_
  simp only [hwords, hword "Self" (by decide), Bool.false_eq_true, if_false]
  refine (reads_name hi ts).bind ((reads_sees _ ts).andThen ?_)
  rw [hat]
  exact hargs.before (reads_pure _ rest)

/-- A name with generic arguments is a path. -/
theorem reads_path_generic {i : Ident} (hi : i.isName = true) {a : GenericArgs}
    (hat : atArguments false ts = true) (hargs : Reads g.arguments ts rest a f)
    (hrest : atOp "::" rest = false) :
    Reads (g.path false) (.ident i :: ts) rest ⟨false, [⟨i, some a⟩]⟩
      (Path.fragment ⟨false, [⟨i, some a⟩]⟩) := by
  have hmore : Reads (g.moreSegments false) rest rest [] .empty := by
    refine reads_collect_nil ((reads_ahead rest).andThen ?_)
    rw [hrest]
    exact reads_pure none rest
  refine Reads.printing (f := Segment.fragment ⟨i, some a⟩) ?_
  refine (reads_op?_of_not rfl).andThen ?_
  exact (g.reads_segment_generic hi hat hargs).before (hmore.andThen (reads_pure _ rest))

/-! ## 7. Generic parameters -/

theorem reads_parameter_lifetime (i : Ident) (hrest : ClosedBy [',', '>'] rest) :
    Reads (g.parameter true) (.lifetime i :: rest) rest true (.plain [.lifetime i]) := by
  have hcolon : Reads (afterColon (lifetimesUntil fun ts => atOp "," ts || atOp ">" ts)) rest rest
      () .empty :=
    (reads_op?_of_not (hrest.not_atOp (by decide))).silent.andThen (reads_pure () rest)
  refine (reads_ahead _).andThen ?_
  exact (reads_lifetime i rest).before (hcolon.andThen (reads_pure true rest))

/-- A parameter with one bound. -/
theorem reads_parameter_bounded {i : Ident} (hi : i.isName = true) (q : NamePath)
    (hrest : ClosedBy [',', '>'] rest) :
    Reads ((rules g).parameter true) (.ident i :: .punct ':' false :: (q.tokens ++ rest)) rest false
      (.plain [.ident i] ++ (.plain [.punct ':' false] ++ q.fragment)) := by
  have hopens := q.opensPath rest
  have hbound : Reads ((rules g).bound false true) (q.tokens ++ rest) rest .trait q.fragment :=
    g.reads_anyBound false true q (endsType_of_closedBy hrest)
  -- One bound is read, and what closes the parameter ends the list.
  have hbounds : Reads ((rules g).boundsUntil fun ts => atOp "," ts || atOp ">" ts || atOp "=" ts)
      (q.tokens ++ rest) rest () q.fragment := by
    refine Repeats.reads (.stop ((reads_sees _ _).andThen ?_))
    simp only [hopens.not_atOp (s := ",") (by decide), hopens.not_atOp (s := ">") (by decide),
      hopens.not_atOp (s := "=") (by decide), Bool.or_false, Bool.false_eq_true, if_false]
    exact hbound.before (reads_op?_of_not (hrest.not_atOp (by decide)))
  have hempty : q.fragment.isEmpty = false := by
    show q.tokens.isEmpty = false
    unfold NamePath.tokens
    cases q.leading <;> rfl
  have hcolon : Reads (afterColon ((rules g).boundsUntil fun ts =>
      atOp "," ts || atOp ">" ts || atOp "=" ts)) (.punct ':' false :: (q.tokens ++ rest)) rest ()
      (.plain [.punct ':' false] ++ q.fragment) := by
    refine (Reads.silent (reads_op?_of_at rfl rfl)).andThen ?_
    refine hbounds.captured.andThen ?_
    simp only [hempty, Bool.not_false, if_true]
    exact (reads_emitTokens _ rest).bind (reads_emit _ rest)
  have hname : atName (.ident i :: .punct ':' false :: (q.tokens ++ rest)) = true := hi
  refine (reads_ahead _).andThen ?_
  rw [if_neg (by simp [atLifetime]), hname]
  refine (reads_name hi _).discard.bind (hcolon.before ?_)
  exact (reads_op?_of_not (hrest.not_atOp (by decide))).andThen (reads_pure false rest)

/-- Generic parameters as they print. -/
def genericsOf (items : List (Bool × Fragment × Bool)) : Fragment :=
  .plain [.punct '<' false] ++ .commaSeparated (anglesOf false items).trailing
    (anglesOf false items).args ++ .plain [.punct '>' false]

theorem reads_generics (j k : Bool) {inner : List Token} {items : List (Bool × Fragment × Bool)}
    (h : AngleList (do let _ ← g.outerAttrs; g.parameter true) (.punct '>' k :: rest) inner items)
    (hne : (anglesOf false items).args.isEmpty = false) :
    Reads g.generics (.punct '<' j :: inner) rest (genericsOf items) (genericsOf items) := by
  have hclose : atOp ">" (.punct '>' k :: rest) = true := by cases k <;> rfl
  have hat : atOp "<" (.punct '<' j :: inner) = true := by cases j <;> rfl
  have hopen : Reads (op "<") (.punct '<' j :: inner) inner () (.plain [.punct '<' false]) :=
    reads_op hat rfl
  refine Reads.printing (f := .plain [.punct '<' false] ++ .plain [.punct '>' false]) ?_
  refine (reads_sees (atOp "<") _).andThen ?_
  rw [hat]
  refine hopen.bind ((h.reads hclose).andThen ?_)
  refine Reads.before (reads_op hclose rfl) ?_
  rw [show ((sortedItems items).map (·.2.1)).isEmpty = false from hne]
  exact reads_pure _ rest

end Grammar

end EnumCatalog.Syntax
