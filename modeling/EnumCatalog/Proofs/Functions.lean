import EnumCatalog.Proofs.Attributes
import EnumCatalog.Proofs.Statements

/-!
# Functions, read forward

A function is read part by part: its parameters, its signature, and with the attributes in front and
the block behind, the whole item. A parameter that starts with a name might still be the receiver of
a method, so the grammar tries that first and has to fail there.
-/

set_option autoImplicit false

namespace EnumCatalog.Syntax

open Reader

namespace Grammar

variable (g : Grammar) {ts mid rest : List Token} {f f' : Fragment} {i : Ident}

/-! ## 1. Parameters -/

/-- A round of reading the parameters of a function. -/
def paramRound (first : Bool) : Reader (Option Bool) := do
  if ← atEnd then return none
  let _ ← g.outerAttrs
  if ← op? "..." then
    if !(← atEnd) then op ","
    return none
  let received ← (do g.receiver; return true) <|> pure false
  if received then require first
  else
    let ts ← ahead
    if atName ts && atOp "<" ts.tail then
      emitTokens [.underscore, .punct ':' false]
      discard (g.type true)
    else
      discard g.pattern
      op ":"
      if ← op? "..." then
        if !(← atEnd) then op ","
        return none
      discard (g.type true)
  if ← atEnd then return none
  op ","
  return some false

/-- A name is no receiver. -/
theorem fails_receiver (hi : i.isName = true) (ts : List Token) :
    Fails g.receiver (.ident i :: ts) := by
  have hword : ∀ w ∈ Ident.reservedWords, atWord w (.ident i :: ts) = false :=
    fun w hw => Ident.not_isWord_of_isName hi hw
  refine Reads.fails (reads_op?_of_not rfl) ?_
  refine Reads.fails (reads_word?_of_not (hword "mut" (by decide))).discard ?_
  exact (fails_word (hword "self" (by decide))).bind _

/-- A name with a colon after it is a pattern. -/
theorem reads_anyPattern_name (hi : i.isName = true) (ts : List Token) :
    Reads g.anyPattern (.ident i :: .punct ':' false :: ts) (.punct ':' false :: ts) .other
      (.plain [.ident i]) := by
  -- No rule that is tried before that of bindings takes a name with a single colon after it.
  have hword : ∀ w ∈ Ident.reservedWords,
      atWord w (.ident i :: .punct ':' false :: ts) = false :=
    fun w hw => Ident.not_isWord_of_isName hi hw
  have hname : atName (.ident i :: .punct ':' false :: ts) = true := hi
  have hpath : atPathPattern (.ident i :: .punct ':' false :: ts) = false := by
    unfold atPathPattern
    simp only [hname, hword "self" (by decide), atWordIn, List.any_cons, List.any_nil,
      hword "Self" (by decide), hword "super" (by decide), hword "crate" (by decide)]
    rfl
  have hliteral : atLiteral (.ident i :: .punct ':' false :: ts) = false := by
    show (i.isWord "true" || i.isWord "false") = false
    rw [Ident.not_isWord_of_isName hi (by decide), Ident.not_isWord_of_isName hi (by decide)]
    rfl
  have hminus : atOp "-" (.ident i :: .punct ':' false :: ts) = false := rfl
  have hbinding : Reads g.bindingPattern (.ident i :: .punct ':' false :: ts)
      (.punct ':' false :: ts) () (.plain [.ident i]) := by
    refine (reads_word?_of_not (hword "ref" (by decide))).discard.andThen ?_
    refine (reads_word?_of_not (hword "mut" (by decide))).discard.andThen ?_
    refine (reads_sees (atWord "self") _).andThen ?_
    rw [hword "self" (by decide)]
    refine (reads_name hi _).discard.before ?_
    exact (reads_op?_of_not rfl).andThen (reads_pure () _)
  refine reads_get fun _ _ => ?_
  simp only [hpath, hword "_" (by decide), hword "box" (by decide), hminus, hliteral,
    hword "const" (by decide), hname, Bool.or_false, Bool.or_true, Bool.false_eq_true, if_false,
    if_true]
  exact hbinding.before (reads_pure _ _)

/-- A parameter, and what the round does with what is behind its type. -/
theorem reads_paramRound_of (hi : i.isName = true) (first : Bool) {shape : TypeShape}
    {next : Option Bool} (hdots : atOp "..." ts = false)
    (htype : Reads ((rules g).type true) ts mid shape f)
    (hafter : Reads (do
      if ← atEnd then return none
      op ","
      return some false) mid rest next f') :
    Reads (paramRound (rules g) first) (.ident i :: .punct ':' false :: ts) rest next
      (.plain [.ident i] ++ (.plain [.punct ':' false] ++ (f ++ f'))) := by
  have hangle : (atName (.ident i :: .punct ':' false :: ts) &&
      atOp "<" (.punct ':' false :: ts)) = false := by
    rw [show atOp "<" (.punct ':' false :: ts) = false from rfl, Bool.and_false]
  -- The attempt to read a receiver fails at the name, so a pattern and its type are read.
  have hreceiver : Reads ((do (rules g).receiver; return true) <|> pure false)
      (.ident i :: .punct ':' false :: ts) (.ident i :: .punct ':' false :: ts) false .empty :=
    ((fails_receiver (rules g) hi _).bind _).orElse (reads_pure false _)
  have hpattern : Reads (discard (rules g).pattern) (.ident i :: .punct ':' false :: ts)
      (.punct ':' false :: ts) () (.plain [.ident i]) := (g.reads_anyPattern_name hi ts).discard
  refine (reads_sees List.isEmpty _).andThen ?_
  refine (reads_outerAttrs_nil (rules g) rfl).andThen ?_
  refine (reads_op?_of_not rfl).andThen ?_
  refine hreceiver.andThen ((reads_ahead _).andThen ?_)
  rw [List.tail_cons, hangle]
  refine hpattern.bind (Reads.bind (reads_op rfl rfl) ?_)
  exact (reads_op?_of_not hdots).andThen (htype.discard.bind hafter)

/-- A parameter with the comma after it. -/
theorem reads_paramRound (hi : i.isName = true) (first j : Bool) {shape : TypeShape}
    (hdots : atOp "..." ts = false)
    (htype : Reads ((rules g).type true) ts (.punct ',' j :: rest) shape f) :
    Reads (paramRound (rules g) first) (.ident i :: .punct ':' false :: ts) rest (some false)
      (.plain [.ident i] ++ (.plain [.punct ':' false] ++ (f ++ .plain [.punct ',' false]))) := by
  refine g.reads_paramRound_of hi first hdots htype ((reads_sees List.isEmpty _).andThen ?_)
  exact (reads_comma j rest).before (reads_pure _ rest)

/-- A parameter with nothing after it. -/
theorem reads_paramRound_last (hi : i.isName = true) (first : Bool) {shape : TypeShape}
    (hdots : atOp "..." ts = false) (htype : Reads ((rules g).type true) ts [] shape f) :
    Reads (paramRound (rules g) first) (.ident i :: .punct ':' false :: ts) [] none
      (.plain [.ident i] ++ (.plain [.punct ':' false] ++ (f ++ .empty))) :=
  g.reads_paramRound_of hi first hdots htype
    ((reads_sees List.isEmpty []).andThen (reads_pure none []))

/-- A reference to the value that a method is called on. -/
theorem reads_paramRound_self :
    Reads (paramRound g true) [.punct '&' false, .word "self"] [] none
      (.plain [.punct '&' false] ++ (.plain [.word "self"] ++ ⟨[], ["Self"]⟩)) := by
  have hreceiver : Reads g.receiver [.punct '&' false, .word "self"] [] ()
      (.plain [.punct '&' false] ++ (.plain [.word "self"] ++ ⟨[], ["Self"]⟩)) := by
    refine (reads_op?_of_at rfl rfl).bind ?_
    refine (reads_lifetime?_of_not rfl).discard.andThen ?_
    refine (reads_word?_of_not rfl).discard.andThen ((reads_word rfl []).bind ?_)
    exact (reads_op?_of_not rfl).andThen (reads_emit _ [])
  have hreceived : Reads ((do g.receiver; return true) <|> pure false)
      [.punct '&' false, .word "self"] [] true
      (.plain [.punct '&' false] ++ (.plain [.word "self"] ++ ⟨[], ["Self"]⟩)) :=
    (hreceiver.before (reads_pure true [])).orElse _
  refine (reads_sees List.isEmpty _).andThen ?_
  refine (reads_outerAttrs_nil g rfl).andThen ((reads_op?_of_not rfl).andThen ?_)
  refine hreceived.before ((reads_require rfl []).andThen ?_)
  exact (reads_sees List.isEmpty []).andThen (reads_pure none [])

/-- Parameters each of which has a comma after it. -/
inductive Params : List Token → Fragment → Prop
  | nil : Params [] .empty
  | cons {ts rest : List Token} {f f' : Fragment} (hlt : rest.length < ts.length)
    (h : ∀ first, Reads (g.paramRound first) ts rest (some false) f) (hs : Params rest f') :
    Params ts (f ++ f')

variable {g}

theorem Params.iterates (h : Params g ts f) (first : Bool) :
    Iterates g.paramRound first ts [] f := by
  induction h generalizing first with
  | nil => exact .stop ((reads_sees List.isEmpty []).andThen (reads_pure none []))
  | cons hlt h hs ih => exact .round (h first) hlt (ih false)

theorem Params.reads (h : Params g ts f) (rest : List Token) :
    Reads g.params (.paren ts :: rest) rest () (f.within .paren) :=
  (h.iterates true).reads.inGroup .paren rest

variable (g)

/-! ## 2. Signatures -/

theorem reads_returnType_none (plus : Bool) (h : atOp "->" ts = false) :
    Reads (g.returnType plus) ts ts none .empty :=
  (reads_op?_of_not h).andThen (reads_pure none ts)

theorem reads_returnType_some (plus j : Bool) {shape : TypeShape}
    (h : Reads (g.type plus) ts rest shape f) :
    Reads (g.returnType plus) (.punct '-' true :: .punct '>' j :: ts) rest (some shape)
      (.plain (Token.operator ['-', '>']) ++ f) :=
  (reads_op?_of_at rfl rfl).bind (h.before (reads_pure _ rest))

theorem reads_generics_none (h : atOp "<" ts = false) : Reads g.generics ts ts .empty .empty := by
  refine Reads.printing (φ := id) (f := .empty) ((reads_sees _ ts).andThen ?_)
  rw [h]
  exact reads_pure _ ts

theorem reads_whereClause_none (h : atWord "where" ts = false) :
    Reads g.whereClause ts ts .empty .empty := by
  refine Reads.printing (φ := id) (f := .empty) ?_
  exact (reads_word?_of_not h).andThen (reads_pure _ ts)

/-- The signature of a function without words in front. -/
theorem reads_signature (hi : i.isName = true) {after : List Token} {result : Option TypeShape}
    {fg fp fr : Fragment} (hgenerics : Reads g.generics ts mid fg fg)
    (hparams : Reads g.params mid after () fp)
    (hresult : Reads (g.returnType true) after rest result fr)
    (hwhere : atWord "where" rest = false) :
    Reads (g.signature false) (.word "fn" :: .ident i :: ts) rest false
      (.plain [.word "fn"] ++ (.plain [.ident i] ++ (fg ++ (fp ++ fr)))) := by
  have habi : Reads abi? (.word "fn" :: .ident i :: ts) (.word "fn" :: .ident i :: ts) () .empty :=
    (reads_sees (atWord "extern") _).andThen (reads_pure () _)
  refine Reads.andThen (reads_word?_of_not rfl).discard ?_
  refine Reads.andThen (reads_word?_of_not rfl).discard ?_
  refine (reads_word?_of_not rfl).andThen ((reads_pure false _).andThen (habi.andThen ?_))
  refine (reads_word (w := "fn") rfl _).bind ((reads_name hi ts).discard.bind ?_)
  refine hgenerics.discard.bind (hparams.bind (hresult.discard.before ?_))
  exact (g.reads_whereClause_none hwhere).discard.andThen (reads_pure false rest)

/-! ## 3. Items -/

theorem reads_innerAttrs_nil (h : atOp "#" ts = false) : Reads g.innerAttrs ts ts [] .empty := by
  refine reads_collect_nil ((reads_ahead ts).andThen ?_)
  rw [h, Bool.false_and]
  exact reads_pure none ts

/-- A block in braces without attributes at its start. -/
theorem reads_body (hsign : atOp "#" ts = false) (hstatements : Reads g.statements ts [] () f)
    (rest : List Token) : Reads g.body (.brace ts :: rest) rest [] (f.within .brace) := by
  have hinner := g.reads_innerAttrs_nil hsign
  exact (hinner.andThen (hstatements.before (reads_pure [] []))).inGroup .brace rest

theorem reads_inherited (h : atWord "pub" ts = false) :
    Reads Visibility.read ts ts .inherited .empty := by
  refine Reads.printing (φ := Visibility.fragment) (f := .empty) ?_
  exact (reads_word?_of_not h).andThen (reads_pure _ ts)

/-- A visibility in front of a word. -/
theorem reads_everyone (i : Ident) (ts : List Token) :
    Reads Visibility.read (.word "pub" :: .ident i :: ts) (.ident i :: ts) .everyone
      (.plain [.word "pub"]) := by
  refine Reads.printing (φ := Visibility.fragment) (f := .plain [.word "pub"]) ?_
  refine (reads_word?_of_at rfl _).before ?_
  exact (reads_ahead _).andThen (reads_pure _ _)

/-- A function that is visible to everyone, with attributes in front. -/
theorem reads_anyItem_function {attrTokens inner : List Token} {attrs : List Attribute}
    (hattrs : Attribute.Outer g.value attrTokens attrs)
    (hsignature : Reads (g.signature false) (.word "fn" :: ts) (.brace inner :: rest) false f)
    (hsign : atOp "#" inner = false) (hstatements : Reads g.statements inner [] () f') :
    let item := Fragment.concat (attrs.map Attribute.fragment) ++ .plain [.word "pub"] ++
      (f ++ f'.within .brace)
    Reads g.anyItem (attrTokens ++ .word "pub" :: .word "fn" :: ts) rest (.other item) item := by
  intro item
  have hvis := reads_everyone (.plain "fn") ts
  have hbody : Reads (do
      if ← op? ";" then return false
      discard g.body
      return true) (.brace inner :: rest) rest true (f'.within .brace) := by
    refine (reads_op?_of_not rfl).andThen ?_
    exact (g.reads_body hsign hstatements rest).discard.before (reads_pure true rest)
  show Reads _ _ _ (Item.other item) (Item.fragment (.other item))
  refine Reads.printing (f := .empty) (reads_get fun _ _ => ?_)
  refine (hattrs.reads rfl).captured.andThen (hvis.captured.andThen ((reads_ahead _).andThen ?_))
  exact (hsignature.discard.bind hbody).captured.andThen (reads_pure _ rest)

end Grammar

end EnumCatalog.Syntax
