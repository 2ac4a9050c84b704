import EnumCatalog.Proofs.ArtifactText
import EnumCatalog.Proofs.Functions

/-!
# Reading the artifact

The tokens of the artifact, read as items. What a rule writes down is what it has read, apart from
the marks of punctuation that touches what comes next: an item prints its operators apart. So the
tokens of a part that is read and those of the part as it prints differ in `touching` alone.

A grammar of depth `n + 1` is the rules over the one of depth `n`, so each part says how much deeper
than any depth the grammar has to be that reads it.
-/

set_option autoImplicit false

namespace EnumCatalog

open Syntax Syntax.Reader Syntax.Grammar

namespace Artifact

variable (n : Nat) {ts rest : List Token} {f : Fragment}

/-! ## 1. Calls -/

theorem tokens_ne_nil (p : NamePath) : p.tokens ≠ [] :=
  List.append_ne_nil_of_right_ne_nil _ (List.cons_ne_nil _ _)

/-- The generic argument of a call. -/
theorem reads_callArguments (p : NamePath) (comma j k : Bool) (rest : List Token) :
    Reads (ofDepth (n + 1)).arguments
      (.punct ':' true :: .punct ':' true :: .punct '<' j ::
        (p.tokens ++ (lastComma comma ++ .punct '>' k :: rest))) rest
      (anglesOf true [(false, p.fragment, comma)])
      (anglesOf true [(false, p.fragment, comma)]).fragment := by
  have hopens := p.opensPath (lastComma comma ++ .punct '>' k :: rest)
  have hclose : ClosedBy [',', '>'] (lastComma comma ++ .punct '>' k :: rest) := by
    cases comma <;> simp [lastComma, ClosedBy]
  have hargument := reads_argument (ofDepth (n + 1)) hopens.not_atLifetime hopens.not_atLiteral
    (hopens.not_atGroup .brace)
    (reads_anyType_name (ofDepth n) true p (endsType_of_closedBy hclose)) hclose
  exact reads_arguments (ofDepth (n + 1)) true j k
    (AngleList.single comma (tokens_ne_nil p) (hopens.not_atOp (by decide)) hargument)

theorem reads_call {receiver method : Ident} (hreceiver : receiver.isName = true)
    (hmethod : method.isName = true) (p : NamePath) (comma : Bool) {values : List Token}
    {as : List (Unit × Bool)} (hvalues : CommaList (ofDepth (n + 1)).value values as f)
    (hrest : ClosedBy closers rest) :
    ∃ f', f'.tokens = callTokens false receiver method p comma f.tokens ∧
      Reads ((ofDepth (n + 1)).anyUnary true)
        (callTokens true receiver method p comma values ++ rest) rest .other f' := by
  have harguments := reads_callArguments n p comma (!comma && p.leading) false
    (.paren values :: rest)
  have htrailers := reads_trailers_method (ofDepth (n + 1)) hmethod false rfl harguments hvalues
    (by simp; omega) hrest
  have hunary : Reads ((ofDepth (n + 1)).anyUnary true) (.ident receiver :: _) rest .other _ :=
    reads_anyUnary (ofDepth (n + 1)) true (opensOperand_of_opensWord trivial)
      (reads_atom_name (ofDepth (n + 1)) hreceiver (endsName_point false _)) htrailers
  refine ⟨_, ?_, by simpa [callTokens] using hunary⟩
  simp [callTokens, tokens_anglesOf_single, Fragment.plain, Fragment.within, Token.operator,
    NamePath.fragment, Token.paren]

/-! ## 2. Statements -/

/-- A call with a semicolon after it. -/
theorem reads_callStatement {receiver method : Ident} (hreceiver : receiver.isName = true)
    (hmethod : method.isName = true) (p : NamePath) (comma : Bool) {values : List Token}
    {as : List (Unit × Bool)} (hvalues : CommaList (ofDepth (n + 1)).value values as f)
    (rest : List Token) :
    ∃ f', f'.tokens = callTokens false receiver method p comma f.tokens ++ [.punct ';' false] ∧
      Reads (statement (ofDepth (n + 3)))
        (callTokens true receiver method p comma values ++ .punct ';' false :: rest) rest true f' := by
  have hsemi : ClosedBy closers (.punct ';' false :: rest) := closedBy_punct (by decide) _ _
  obtain ⟨f', htokens, hcall⟩ := reads_call n hreceiver hmethod p comma hvalues hsemi
  refine ⟨f' ++ .plain (Token.operator [';']), ?_, ?_⟩
  · rw [Fragment.tokens_append, htokens]
    rfl
  · exact reads_statement (ofDepth (n + 1)) hreceiver (closedBy_punct List.mem_cons_self _ _) hcall
      hsemi (reads_op?_of_at rfl rfl)

theorem reads_mapStatement (p : NamePath) (rest : List Token) :
    ∃ f, f.tokens = mapTokens false p ∧
      Reads (statement (ofDepth (n + 5))) (mapTokens true p ++ rest) rest true f := by
  have hvalue : Reads (ofDepth (n + 3)).value [.word "translator"] [] ()
      ⟨[.word "translator"], ["translator"]⟩ :=
    reads_value_name (ofDepth (n + 1)) (i := .plain "translator") (by decide) trivial
  have hmapper : (Ident.plain "mapper").isName = true := by decide
  have hmap : (Ident.plain "map_enum").isName = true := by decide
  obtain ⟨f, htokens, hstatement⟩ := reads_callStatement (n + 2) hmapper hmap p (mapSpread p)
    (.last (List.cons_ne_nil _ _) hvalue) rest
  refine ⟨f, htokens, ?_⟩
  rw [mapTokens, List.append_assoc]
  exact hstatement

/-- The database name of an enum as it is read. -/
def nameFragment (aliasName : Option String) : Fragment :=
  ⟨nameTokens aliasName, [if aliasName.isSome then "Some" else "None"]⟩

theorem reads_name (aliasName : Option String) (hrest : ClosedBy closers rest) :
    Reads (ofDepth (n + 4)).value (nameTokens aliasName ++ rest) rest () (nameFragment aliasName) := by
  cases aliasName with
  | none => exact reads_value_name (ofDepth (n + 2)) (i := .plain "None") (by decide) hrest
  | some a =>
    rw [nameFragment, nameTokens]
    generalize nameSpread (some a) = isSpread
    have hcomma : ClosedBy closers (lastComma isSpread) := by
      cases isSpread <;> simp [lastComma, ClosedBy, closers]
    have hliteral := reads_value_literal (ofDepth n) (Text.quoted a) hcomma
    have hvalues := CommaList.single isSpread (List.cons_ne_nil _ []) hliteral
    exact reads_value_call (ofDepth (n + 2)) (i := .plain "Some") (by decide) hvalues hrest

/-- The values that an enum is declared with. -/
theorem commaList_arguments (aliasName : Option String) :
    ∃ as f, f.tokens = argumentsTokens aliasName ∧
      CommaList (ofDepth (n + 4)).value (argumentsTokens aliasName) as f := by
  have hlast : ClosedBy closers (lastComma (argumentsSpread aliasName)) := by
    cases argumentsSpread aliasName <;> simp [lastComma, ClosedBy, closers]
  have htranslator : Reads (ofDepth (n + 4)).value
      ([.word "translator"] ++ lastComma (argumentsSpread aliasName))
      (lastComma (argumentsSpread aliasName)) () ⟨[.word "translator"], ["translator"]⟩ :=
    reads_value_name (ofDepth (n + 2)) (i := .plain "translator") (by decide) hlast
  have hcomma : ∀ ts, ClosedBy closers (.punct ',' false :: ts) :=
    closedBy_punct List.mem_cons_self false
  have hname := reads_name n aliasName (hcomma (.word "translator" :: lastComma
    (argumentsSpread aliasName)))
  have hschema : Reads (ofDepth (n + 4)).value (argumentsTokens aliasName) _ ()
      ⟨[.word "schema"], ["schema"]⟩ :=
    reads_value_name (ofDepth (n + 2)) (i := .plain "schema") (by decide) (hcomma _)
  have htail := CommaList.single (argumentsSpread aliasName) (List.cons_ne_nil _ []) htranslator
  refine ⟨_, _, ?_, .more ?_ hschema (.more ?_ hname htail)⟩
  · simp [argumentsTokens, nameFragment, Fragment.plain]
  · simp only [argumentsTokens, List.length_cons]
    omega
  · simp only [List.length_append, List.length_cons]
    omega

theorem reads_declareStatement (p : NamePath) (aliasName : Option String) (rest : List Token) :
    ∃ f, f.tokens = declareTokens false p aliasName ∧
      Reads (statement (ofDepth (n + 6))) (declareTokens true p aliasName ++ rest) rest true f := by
  obtain ⟨as, values, hvalueTokens, hvalues⟩ := commaList_arguments n aliasName
  have hbuilder : (Ident.plain "builder").isName = true := by decide
  have hdeclare : (Ident.plain "has_postgres_enum").isName = true := by decide
  obtain ⟨f, htokens, hstatement⟩ := reads_callStatement (n + 3) hbuilder hdeclare p
    (declareSpread p aliasName) hvalues rest
  rw [hvalueTokens] at htokens
  refine ⟨f, htokens, ?_⟩
  rw [declareTokens, List.append_assoc]
  exact hstatement

/-! ## 3. Bodies -/

section

variable (rows : List (NamePath × Option String))

theorem reads_mapBody : ∃ f,
    f.tokens = rows.flatMap (fun row => mapTokens false row.1) ++ [.word "mapper"] ∧
      Reads (ofDepth (n + 6)).statements
        (rows.flatMap (fun row => mapTokens true row.1) ++ [.word "mapper"]) [] () f := by
  have hvalue : Reads ((ofDepth (n + 3)).anyUnary true) [.word "mapper"] [] .other
      ⟨[.word "mapper"], ["mapper"]⟩ :=
    reads_anyUnary_path (ofDepth (n + 3)) (ofName (.plain "mapper") (by decide)) true rfl
      (endsPath_of_closedBy true trivial) (endsExpr_of_closedBy trivial)
  have hend : ClosedBy ['.', ';'] [] := trivial
  have hlast := reads_statement (ofDepth (n + 3)) (i := .plain "mapper") (by decide) hend hvalue
    trivial (reads_op?_of_not rfl)
  obtain ⟨f, htokens, hstatements⟩ := Statements.flatMap
    (fun row (_ : row ∈ rows) => ⟨_, _, rfl⟩) (fun row _ rest => reads_mapStatement n row.1 rest)
    (.value rfl (List.cons_ne_nil _ _) hlast)
  exact ⟨f, htokens, hstatements.reads⟩

theorem reads_declareBody : ∃ f,
    f.tokens = rows.flatMap (fun row => declareTokens false row.1 row.2) ∧
      Reads (ofDepth (n + 7)).statements
        (rows.flatMap fun row => declareTokens true row.1 row.2) [] () f := by
  obtain ⟨f, htokens, hstatements⟩ := Statements.flatMap
    (fun row (_ : row ∈ rows) => ⟨_, _, rfl⟩) (fun row _ rest => reads_declareStatement n row.1 row.2 rest)
    (.nil : Statements (ofDepth (n + 6)) [] .empty)
  rw [List.append_nil] at hstatements
  rw [show Fragment.empty.tokens = [] from rfl, List.append_nil] at htokens
  exact ⟨f, htokens, hstatements.reads⟩

end

/-! ## 4. Types -/

/-- A reference to something that may be changed. -/
theorem reads_mutType {i : Ident} (hi : i.isName = true) (plus j : Bool) {b : Bool}
    (hlifetime : Reads lifetime? ts (.word "mut" :: .ident i :: rest) b f)
    (hrest : EndsType rest) :
    Reads ((ofDepth (n + 2)).type plus) (.punct '&' j :: ts) rest .other
      (.plain [.punct '&' false] ++ (f ++ (.plain [.word "mut"] ++ (ofName i hi).fragment))) :=
  reads_anyType_reference (ofDepth (n + 1)) plus j hlifetime (reads_word?_of_at (w := "mut") rfl _)
    (reads_anyType_name (ofDepth n) false (ofName i hi) hrest)

theorem reads_refType {i : Ident} (hi : i.isName = true) (plus j : Bool) (hrest : EndsType rest) :
    Reads ((ofDepth (n + 2)).type plus) (.punct '&' j :: .ident i :: rest) rest .other
      (.plain [.punct '&' false] ++ (.empty ++ (.empty ++ (ofName i hi).fragment))) := by
  have hmut : atWord "mut" (.ident i :: rest) = false := Ident.not_isWord_of_isName hi (by decide)
  have hlifetime : Reads lifetime? (.ident i :: rest) (.ident i :: rest) false .empty :=
    reads_lifetime?_of_not rfl
  exact reads_anyType_reference (ofDepth (n + 1)) plus j hlifetime (reads_word?_of_not hmut)
    (reads_anyType_name (ofDepth n) false (ofName i hi) hrest)

/-- A reference to something that is known by a trait. -/
theorem reads_dynType (plus j : Bool) (q : NamePath) (hrest : EndsType rest) :
    Reads ((ofDepth (n + 3)).type plus) (.punct '&' j :: .word "dyn" :: (q.tokens ++ rest)) rest
      .other (.plain [.punct '&' false] ++ (.empty ++ (.empty ++
        (.plain [.word "dyn"] ++ q.fragment)))) := by
  have hlifetime : Reads lifetime? (.word "dyn" :: (q.tokens ++ rest))
      (.word "dyn" :: (q.tokens ++ rest)) false .empty := reads_lifetime?_of_not rfl
  exact reads_anyType_reference (ofDepth (n + 2)) plus j hlifetime (reads_word?_of_not rfl)
    (reads_anyType_dyn (ofDepth n) q hrest)

/-- An option of a reference. -/
theorem reads_optionType (plus comma i j k : Bool) (inner : List Token) {shape : TypeShape}
    (htype : Reads ((ofDepth (n + 1)).type true)
      (.punct '&' i :: (inner ++ (lastComma comma ++ .punct '>' k :: rest)))
      (lastComma comma ++ .punct '>' k :: rest) shape f) (hrest : EndsType rest) :
    ∃ shape f', f'.tokens = .word "Option" :: .punct '<' false ::
        (f.tokens ++ (lastComma comma ++ [.punct '>' false])) ∧
      Reads ((ofDepth (n + 2)).type plus) (.word "Option" :: .punct '<' j :: .punct '&' i ::
        (inner ++ (lastComma comma ++ .punct '>' k :: rest))) rest shape f' := by
  have hclose : ClosedBy [',', '>'] (lastComma comma ++ .punct '>' k :: rest) := by
    cases comma <;> simp [lastComma, ClosedBy]
  have hargument := reads_argument (ofDepth (n + 1)) rfl rfl rfl htype hclose
  have hne : .punct '&' i :: inner ≠ [] := List.cons_ne_nil _ _
  have harguments := reads_arguments (ofDepth (n + 1)) false j k
    (AngleList.single comma hne (atChars_of_ne (by decide) [] i _) hargument)
  have hat : atArguments false (.punct '<' j :: .punct '&' i ::
      (inner ++ (lastComma comma ++ .punct '>' k :: rest))) = true := by
    cases i <;> cases j <;> rfl
  have hoption : (Ident.plain "Option").isName = true := by decide
  have hpath := reads_path_generic (ofDepth (n + 1)) hoption hat harguments hrest.ends.colons
  refine ⟨_, _, ?_, reads_anyType_path (ofDepth (n + 1)) plus (.ident (by decide) _) hpath hrest⟩
  show .word "Option" :: (anglesOf false [(false, f, comma)]).fragment.tokens = _
  rw [tokens_anglesOf_single]
  rfl

/-! ## 5. Parameters -/

theorem params_cons {i : Ident} (hi : i.isName = true) {shape : TypeShape} {f' : Fragment}
    (hdots : atOp "..." ts = false)
    (htype : Reads ((ofDepth (n + 1)).type true) ts (.punct ',' false :: rest) shape f)
    (hlt : rest.length < ts.length) (hs : Params (ofDepth (n + 1)) rest f') :
    Params (ofDepth (n + 1)) (.ident i :: .punct ':' false :: ts)
      (.plain [.ident i] ++ (.plain [.punct ':' false] ++ (f ++ .plain [.punct ',' false])) ++
        f') := by
  refine .cons ?_ (fun first => reads_paramRound (ofDepth n) hi first false hdots htype) hs
  simp only [List.length_cons]
  omega

variable (runtime : NamePath)

/-- The translator, which is the last parameter of either function. -/
theorem params_naming : ∃ f, f.tokens = namingTokens runtime false ++ [.punct ',' false] ∧
    Params (ofDepth (n + 4)) (namingTokens runtime true ++ [.punct ',' false]) f := by
  unfold namingTokens
  generalize translatorSpread runtime = isSpread
  generalize translatorPath runtime = q
  have hclose : ClosedBy [',', '>'] (lastComma isSpread ++ [.punct '>' true, .punct ',' false]) := by
    cases isSpread <;> simp [lastComma, ClosedBy]
  have htype : Reads ((ofDepth (n + 3)).type true) (.punct '&' false ::
      ((.word "dyn" :: q.tokens) ++ (lastComma isSpread ++ [.punct '>' true, .punct ',' false])))
      _ .other _ := reads_dynType n true false q (endsType_of_closedBy hclose)
  have hend : EndsType [.punct ',' false] := endsType_of_closedBy (closedBy_punct (by decide) _ _)
  obtain ⟨shape, f, htokens, hoption⟩ :=
    reads_optionType (n + 2) true isSpread false (!isSpread) true _ htype hend
  have hparams := params_cons (n + 3) (i := .plain "translator") (by decide) rfl hoption
    (by simp only [List.length_cons, List.length_nil]; omega) .nil
  refine ⟨_, ?_, by simpa [Token.word] using hparams⟩
  simp [htokens, Fragment.plain, NamePath.fragment, Token.word]

theorem endsType_comma (ts : List Token) : EndsType (.punct ',' false :: ts) :=
  endsType_of_closedBy (closedBy_punct List.mem_cons_self false ts)

theorem params_map : ∃ f, f.tokens = mapParametersTokens runtime false ∧
    Params (ofDepth (n + 4)) (mapParametersTokens runtime true) f := by
  obtain ⟨f, htokens, hparams⟩ := params_naming n runtime
  have hmapper := reads_mutType (n + 2) (i := .plain "M") (by decide) true true
    (reads_lifetime?_of_at (.plain "a") _)
    (endsType_comma (namingTokens runtime true ++ [.punct ',' false]))
  refine ⟨_, ?_, params_cons (n + 3) (i := .plain "mapper") (by decide) rfl hmapper ?_ hparams⟩
  · simp [mapParametersTokens, htokens, Fragment.plain, NamePath.fragment, Token.word]
    rfl
  · simp only [List.length_cons]
    omega

theorem params_declare : ∃ f, f.tokens = declareParametersTokens runtime false ∧
    Params (ofDepth (n + 4)) (declareParametersTokens runtime true) f := by
  obtain ⟨f, htokens, hparams⟩ := params_naming n runtime
  have hcomma := endsType_comma (namingTokens runtime true ++ [.punct ',' false])
  have hstr := reads_refType (n + 1) (i := .plain "str") (by decide) true false
    (endsType_of_closedBy (closedBy_punct (by decide : '>' ∈ [',', '>']) true
      (.punct ',' false :: (namingTokens runtime true ++ [.punct ',' false]))))
  obtain ⟨shape, fs, hschemaTokens, hschema⟩ :=
    reads_optionType (n + 2) true false false true true [.word "str"] hstr hcomma
  have htail := params_cons (n + 3) (i := .plain "schema") (by decide) rfl hschema
    (by simp only [List.length_cons, List.length_append]; omega) hparams
  have hbuilder := fun ts => reads_mutType (n + 2) (i := .plain "B") (by decide) true false
    (reads_lifetime?_of_not rfl) (endsType_comma ts)
  refine ⟨_, ?_, params_cons (n + 3) (i := .plain "builder") (by decide) rfl (hbuilder _) ?_
    htail⟩
  · simp [declareParametersTokens, htokens, hschemaTokens, Fragment.plain, NamePath.fragment,
      Token.word]
    rfl
  · simp only [List.length_cons]
    omega

/-! ## 6. Heads -/

/-- A generic parameter of a function, in front of which there might be attributes. -/
def parameter (g : Grammar) : Reader Bool := do
  let _ ← g.outerAttrs
  g.parameter true

theorem reads_lifetimeParameter (i : Ident) (hrest : ClosedBy [',', '>'] rest) :
    Reads (parameter (ofDepth n)) (.lifetime i :: rest) rest true (.plain [.lifetime i]) :=
  (reads_outerAttrs_nil (ofDepth n) rfl).andThen (reads_parameter_lifetime (ofDepth n) i hrest)

theorem reads_boundedParameter {i : Ident} (hi : i.isName = true) (q : NamePath)
    (hrest : ClosedBy [',', '>'] rest) :
    Reads (parameter (ofDepth (n + 1))) (.ident i :: .punct ':' false :: (q.tokens ++ rest)) rest
      false (.plain [.ident i] ++ (.plain [.punct ':' false] ++ q.fragment)) :=
  (reads_outerAttrs_nil (ofDepth (n + 1)) rfl).andThen
    (reads_parameter_bounded (ofDepth n) hi q hrest)

/-- The parameter that stands for a type, which is the last. -/
theorem angleList_bounded {i : Ident} (hi : i.isName = true) (q : NamePath) (comma k : Bool)
    (rest : List Token) :
    AngleList (parameter (ofDepth (n + 1))) (.punct '>' k :: rest)
      (.ident i :: .punct ':' false :: (q.tokens ++ (lastComma comma ++ .punct '>' k :: rest)))
      [(false, .plain [.ident i] ++ (.plain [.punct ':' false] ++ q.fragment), comma)] := by
  have hclose : ClosedBy [',', '>'] (lastComma comma ++ .punct '>' k :: rest) := by
    cases comma <;> simp [lastComma, ClosedBy]
  have hne : .ident i :: .punct ':' false :: q.tokens ≠ [] := List.cons_ne_nil _ _
  exact AngleList.single comma hne rfl (reads_boundedParameter n hi q hclose)

theorem reads_mapGenerics (j k : Bool) (rest : List Token) :
    ∃ f, f.tokens = .punct '<' false :: (mapGenericsTokens runtime ++ [.punct '>' false]) ∧
      Reads (ofDepth (n + 1)).generics
        (.punct '<' j :: (mapGenericsTokens runtime ++ .punct '>' k :: rest)) rest f f := by
  unfold mapGenericsTokens
  generalize mapGenericsSpread runtime = isSpread
  generalize mapperPath runtime = q
  have htype := angleList_bounded n (i := .plain "M") (by decide) q isSpread k rest
  have hlist := AngleList.more rfl (by simp only [List.length_cons]; omega)
    (reads_lifetimeParameter (n + 1) (.plain "a") (closedBy_punct List.mem_cons_self false _)) htype
  have hgenerics := reads_generics (ofDepth (n + 1)) j k hlist rfl
  refine ⟨_, ?_, by simpa [Token.word] using hgenerics⟩
  cases isSpread <;> simp [genericsOf, anglesOf, sortedItems, Fragment.commaSeparated,
    Fragment.plain, NamePath.fragment, lastComma, Token.word]

theorem reads_declareGenerics (j k : Bool) (rest : List Token) :
    ∃ f, f.tokens = .punct '<' false :: (declareGenericsTokens runtime ++ [.punct '>' false]) ∧
      Reads (ofDepth (n + 1)).generics
        (.punct '<' j :: (declareGenericsTokens runtime ++ .punct '>' k :: rest)) rest f f := by
  unfold declareGenericsTokens
  generalize declareGenericsSpread runtime = isSpread
  generalize builderPath runtime = q
  have htype := angleList_bounded n (i := .plain "B") (by decide) q isSpread k rest
  have hgenerics := reads_generics (ofDepth (n + 1)) j k htype rfl
  refine ⟨_, ?_, by simpa [Token.word] using hgenerics⟩
  cases isSpread <;> simp [genericsOf, anglesOf, sortedItems, Fragment.commaSeparated,
    Fragment.plain, NamePath.fragment, lastComma, Token.word]

theorem reads_mapSignature (body rest : List Token) :
    ∃ f, f.tokens = mapSignature runtime false ∧
      Reads ((ofDepth (n + 4)).signature false)
        (mapSignature runtime true ++ .brace body :: rest) (.brace body :: rest) false f := by
  obtain ⟨fg, hgenericTokens, hgenerics⟩ := reads_mapGenerics (n + 3) runtime
    (!mapGenericsSpread runtime) false
    (.paren (mapParametersTokens runtime true) :: (resultTokens true ++ .brace body :: rest))
  obtain ⟨fp, hparamTokens, hparams⟩ := params_map n runtime
  have hresult := reads_returnType_some (ofDepth (n + 4)) true false
    (reads_mutType (n + 2) (i := .plain "M") (by decide) true true
      (reads_lifetime?_of_at (.plain "a") _) (endsType_brace body rest))
  have hsignature := reads_signature (ofDepth (n + 4)) (i := .plain "map_postgres_enums")
    (by decide) hgenerics (hparams.reads _) hresult rfl
  refine ⟨_, ?_, by simpa [mapSignature, signatureTokens] using hsignature⟩
  simp [mapSignature, signatureTokens, hgenericTokens, hparamTokens, Fragment.plain,
    Fragment.within, NamePath.fragment]
  exact ⟨rfl, rfl⟩

theorem reads_declareSignature (body rest : List Token) :
    ∃ f, f.tokens = declareSignature runtime false ∧
      Reads ((ofDepth (n + 4)).signature false)
        (declareSignature runtime true ++ .brace body :: rest) (.brace body :: rest) false f := by
  obtain ⟨fg, hgenericTokens, hgenerics⟩ := reads_declareGenerics (n + 3) runtime false false
    (.paren (declareParametersTokens runtime true) :: .brace body :: rest)
  obtain ⟨fp, hparamTokens, hparams⟩ := params_declare n runtime
  have hresult := reads_returnType_none (ofDepth (n + 4)) true
    (show atOp "->" (.brace body :: rest) = false from rfl)
  have hsignature := reads_signature (ofDepth (n + 4)) (i := .plain "register_postgres_enums")
    (by decide) hgenerics (hparams.reads _) hresult rfl
  refine ⟨_, ?_, by simpa [declareSignature, signatureTokens] using hsignature⟩
  simp [declareSignature, signatureTokens, hgenericTokens, hparamTokens, Fragment.plain,
    Fragment.within]
  rfl

/-! ## 7. Attributes -/

/-- Attributes that print as they are written. -/
def ReadsAttributes (ts : List Token) : Prop :=
  ∃ attrs, (Fragment.concat (attrs.map Attribute.fragment)).tokens = ts ∧
    Attribute.Outer (ofDepth (n + 2)).value ts attrs

theorem readsAttributes_cons {m : Meta} {inner : List Token} (hinner : m.fragment.tokens = inner)
    (h : Reads (Meta.read (ofDepth (n + 2)).value) inner [] m m.fragment)
    (hs : ReadsAttributes n ts) :
    ReadsAttributes n (.punct '#' false :: .bracket inner :: ts) := by
  obtain ⟨attrs, htokens, houter⟩ := hs
  refine ⟨⟨false, m⟩ :: attrs, ?_, .cons false h houter⟩
  rw [← htokens, ← hinner]
  rfl

theorem readsAttributes_doc (line : String) (hs : ReadsAttributes n ts) :
    ReadsAttributes n (docTokens line ++ ts) := by
  have hdoc : (Ident.plain "doc").isName = true := by decide
  exact readsAttributes_cons n rfl (Meta.reads_read (ofDepth (n + 2)).value (ofName _ hdoc) rfl
    (Meta.reads_readAfter_literal (ofDepth n) _ false trivial)) hs

theorem readsAttributes_allow : ReadsAttributes n allowTokens := by
  have hallow : (Ident.plain "allow").isName = true := by decide
  exact readsAttributes_cons n rfl (Meta.reads_read (ofDepth (n + 2)).value (ofName _ hallow) rfl
    (Meta.reads_readAfter_list _ _ .paren _ [])) ⟨[], rfl, .nil⟩

theorem readsAttributes_map : ReadsAttributes n mapAttributes :=
  readsAttributes_doc n _ (readsAttributes_doc n _ (readsAttributes_doc n _
    (readsAttributes_doc n _ (readsAttributes_allow n))))

theorem readsAttributes_declare : ReadsAttributes n declareAttributes :=
  readsAttributes_doc n _ (readsAttributes_doc n _ (readsAttributes_doc n _
    (readsAttributes_allow n)))

end Artifact

end EnumCatalog
