import EnumCatalog.Proofs.Matching

/-!
# Implementations, read forward

An implementation of a trait holds constants and methods. Of what the grammar admits in one, these
are the constants with a value and the methods with a body, and the types in their heads: references,
slices, and paths with a generic argument.
-/

set_option autoImplicit false

namespace EnumCatalog.Syntax

open Reader

namespace Reader

variable {α : Type} {r : Reader α} {ts rest : List Token} {a : α}

theorem Answers.printing {φ : α → Fragment} (h : Answers r ts rest a) :
    Answers (Reader.printing φ r) ts rest a := by
  obtain ⟨f, h⟩ := h
  exact h.printing.answers

theorem Answers.discard (h : Answers r ts rest a) : Answers (Functor.discard r) ts rest () := h.map

end Reader

namespace Grammar

variable (g : Grammar) {ts mid rest inner : List Token} {shape : TypeShape} {i j : Ident}
  {is : List Ident}

/-! ## 1. References and slices -/

/-- A slice. -/
theorem answers_anyType_slice (plus : Bool) (h : Answers (g.type true) inner [] shape)
    (rest : List Token) : Answers (g.anyType plus) (.bracket inner :: rest) rest .other := by
  obtain ⟨f, h⟩ := h
  have hslice : Reads (do discard (g.type true); if ← op? ";" then g.value) inner [] () f :=
    h.discard.before ((reads_op?_of_not rfl).andThen (reads_pure () []))
  refine ⟨f.within .bracket, reads_get fun _ _ => ?_⟩
  refine (g.reads_binder?_of_not rfl).andThen ((reads_ahead _).andThen ?_)
  exact (hslice.inGroup .bracket rest).before (reads_pure _ rest)

/-- A reference to something that lives for a named time. -/
theorem answers_anyType_lifetime (plus : Bool) (i : Ident) (hmut : atWord "mut" ts = false)
    (h : Answers (g.type false) ts rest shape) :
    Answers (g.anyType plus) (.punct '&' false :: .lifetime i :: ts) rest .other := by
  obtain ⟨f, h⟩ := h
  exact ⟨_, g.reads_anyType_reference plus false (reads_lifetime?_of_at i ts)
    (reads_word?_of_not hmut) h⟩

/-- A reference. -/
theorem answers_anyType_reference (plus : Bool) (hlifetime : atLifetime ts = false)
    (hmut : atWord "mut" ts = false) (h : Answers (g.type false) ts rest shape) :
    Answers (g.anyType plus) (.punct '&' false :: ts) rest .other := by
  obtain ⟨f, h⟩ := h
  exact ⟨_, g.reads_anyType_reference plus false (reads_lifetime?_of_not hlifetime)
    (reads_word?_of_not hmut) h⟩

/-! ## 2. Paths with a generic argument -/

/-- Neither a lifetime nor a constant nor the end of the arguments is ahead. -/
structure OpensArgument (ts : List Token) : Prop where
  angle : atOp ">" ts = false
  lifetime : atLifetime ts = false
  literal : atLiteral ts = false
  brace : atGroup .brace ts = false

/-- A name with one type between angle brackets. -/
theorem answers_segment_argument (hi : i.isName = true) (hne : ts ≠ [])
    (hopens : OpensArgument (ts ++ .punct '>' false :: rest))
    (h : Answers (g.type true) (ts ++ .punct '>' false :: rest) (.punct '>' false :: rest) shape) :
    ∃ a, Answers (g.segment false) (.ident i :: .punct '<' false :: (ts ++ .punct '>' false :: rest))
      rest ⟨i, some a⟩ := by
  obtain ⟨f, h⟩ := h
  have hargument := g.reads_argument hopens.lifetime hopens.literal hopens.brace h
    (closedBy_punct (by decide) false rest)
  have hsingle := AngleList.single false hne hopens.angle hargument
  have harguments := g.reads_arguments false false false hsingle
  exact ⟨_, (g.reads_segment_generic hi rfl harguments).answers⟩

/-- A round of reading the segments after the first. -/
def segmentRound : Reader (Option Segment) := do
  let ts ← ahead
  if atOp "::" ts && !atGroup .paren (ts.drop 2) then
    op "::"
    return some (← g.segment false)
  else return none

theorem answers_segmentRound {s : Segment} (h : Answers (g.segment false) (.ident i :: ts) rest s) :
    Answers g.segmentRound (NamePath.rooted [i] ++ ts) rest (some s) := by
  refine (reads_ahead _).answers.bind ?_
  rw [if_pos (by rfl)]
  exact (NamePath.reads_colons _).answers.bind (h.bind (answers_pure (some s) rest))

/-- No arguments follow a name before more names. -/
theorem not_atArguments_rooted (is : List Ident) (i : Ident) (ts : List Token) :
    atArguments false (NamePath.rooted is ++ (NamePath.rooted [i] ++ ts)) = false := by
  cases is <;> rfl

/-- Names, and a segment with which the path ends. -/
theorem answers_moreSegments_last {s : Segment} (his : ∀ k ∈ is, k.isSegment = true)
    (h : Answers (g.segment false) (.ident i :: ts) rest s) (hlt : rest.length ≤ ts.length)
    (hrest : atOp "::" rest = false) :
    Answers (g.moreSegments false) (NamePath.rooted is ++ (NamePath.rooted [i] ++ ts)) rest
      (is.map (⟨·, none⟩) ++ [s]) := by
  -- The segments are collected round by round, and the rounds are what the induction builds.
  suffices hcollects : ∃ f, Collects g.segmentRound
      (NamePath.rooted is ++ (NamePath.rooted [i] ++ ts)) rest (is.map (⟨·, none⟩) ++ [s]) f by
    obtain ⟨f, hcollects⟩ := hcollects
    exact hcollects.reads.answers
  induction is with
  | nil =>
    obtain ⟨f, hround⟩ := g.answers_segmentRound h
    refine ⟨_, .round hround ?_ (.stop (f := .empty) ((reads_ahead rest).andThen ?_))⟩
    · simp only [NamePath.rooted, List.flatMap_nil, List.nil_append, List.flatMap_cons,
        List.append_nil, List.length_append, List.length_singleton]
      omega
    · rw [hrest]
      exact reads_pure none rest
  | cons j is ih =>
    obtain ⟨f, hcollects⟩ := ih fun k hk => his k (List.mem_cons_of_mem _ hk)
    have hname := NamePath.reads_segment g false (his j List.mem_cons_self)
      (not_atArguments_rooted is i ts)
    obtain ⟨f', hround⟩ := g.answers_segmentRound hname.answers
    refine ⟨_, .round hround ?_ hcollects⟩
    simp only [NamePath.rooted_cons, List.length_cons, List.length_append]
    omega

/-- A path from the root, with its last segment. -/
theorem answers_path_last {s : Segment} (his : ∀ k ∈ j :: is, k.isSegment = true)
    (h : Answers (g.segment false) (.ident i :: ts) rest s) (hlt : rest.length ≤ ts.length)
    (hrest : atOp "::" rest = false) :
    Answers (g.path false) (NamePath.rooted (j :: is) ++ (NamePath.rooted [i] ++ ts)) rest
      ⟨true, ⟨j, none⟩ :: (is.map (⟨·, none⟩) ++ [s])⟩ := by
  have hfirst := NamePath.reads_segment g false (his j List.mem_cons_self)
    (not_atArguments_rooted is i ts)
  have hmore := g.answers_moreSegments_last (fun k hk => his k (List.mem_cons_of_mem _ hk)) h hlt
    hrest
  rw [NamePath.rooted_cons]
  refine Answers.printing ((reads_op?_of_at rfl rfl).answers.bind ?_)
  exact hfirst.answers.bind (hmore.bind (answers_pure _ rest))

/-- A path from the root with a type as the argument of its last segment. -/
theorem answers_anyType_argument (plus : Bool) (his : ∀ k ∈ j :: is, k.isSegment = true)
    (hi : i.isName = true) (hne : ts ≠ []) (hopens : OpensArgument (ts ++ .punct '>' false :: rest))
    (h : Answers (g.type true) (ts ++ .punct '>' false :: rest) (.punct '>' false :: rest) shape)
    (hrest : EndsType rest) :
    Answers (g.anyType plus) (NamePath.rooted (j :: is) ++ (NamePath.rooted [i] ++
      .punct '<' false :: (ts ++ .punct '>' false :: rest))) rest (.path false false) := by
  obtain ⟨a, hsegment⟩ := g.answers_segment_argument hi hne hopens h
  have hlt : rest.length ≤ (.punct '<' false :: (ts ++ .punct '>' false :: rest)).length := by
    simp only [List.length_cons, List.length_append]
    omega
  obtain ⟨f, hpath⟩ := g.answers_path_last his hsegment hlt hrest.ends.colons
  exact (g.reads_anyType_path plus (.colons false _) hpath hrest).answers

/-! ## 3. Constants and methods -/

/-- The rest of a constant. -/
theorem answers_constAfter (hi : i.isName = true)
    (htype : Answers (g.type true) ts (.punct '=' false :: mid) shape)
    (hvalue : Answers g.value mid (.punct ';' false :: rest) ()) :
    Answers g.constAfter (.ident i :: .punct ':' false :: ts) rest true := by
  have hname : (atName (.ident i :: .punct ':' false :: ts) ||
      atWord "_" (.ident i :: .punct ':' false :: ts)) = true := by
    rw [show atName (.ident i :: .punct ':' false :: ts) = true from hi]
    rfl
  refine (reads_sees _ _).answers.bind ((reads_require hname _).answers.bind ?_)
  refine (reads_anyIdent i _).discard.answers.bind ((reads_sees _ _).answers.bind ?_)
  refine (g.reads_generics_none rfl).discard.answers.bind ((reads_op rfl rfl).answers.bind ?_)
  refine htype.discard.bind ((reads_op?_of_at rfl rfl).answers.bind (hvalue.bind ?_))
  refine (reads_sees _ _).answers.bind ((g.reads_whereClause_none rfl).discard.answers.bind ?_)
  exact (reads_op rfl rfl).answers.bind (answers_pure true rest)

/-- A constant. -/
theorem answers_implMember_const (hsignature : atSignature false (.word "const" :: ts) = false)
    (h : Answers g.constAfter ts rest true) :
    Answers g.implMember (.word "const" :: ts) rest () := by
  obtain ⟨f, h⟩ := h
  refine ⟨.plain [.word "const"] ++ f, reads_get fun _ _ => ?_⟩
  refine (reads_outerAttrs_nil g rfl).andThen ((reads_inherited rfl).andThen ?_)
  refine (reads_ahead _).andThen ((reads_ahead _).andThen ?_)
  rw [if_neg (by rw [hsignature]; exact Bool.false_ne_true), if_pos (by rfl)]
  exact (reads_word rfl ts).bind (h.before (reads_pure () rest))

/-- A method. -/
theorem answers_implMember_function (hsignature : Answers (g.signature false) (.word "fn" :: ts)
      (.brace inner :: rest) false)
    (hsign : atOp "#" inner = false) (hstatements : Answers g.statements inner [] ()) :
    Answers g.implMember (.word "fn" :: ts) rest () := by
  obtain ⟨f, hsignature⟩ := hsignature
  obtain ⟨f', hstatements⟩ := hstatements
  refine ⟨f ++ f'.within .brace, reads_get fun _ _ => ?_⟩
  refine (reads_outerAttrs_nil g rfl).andThen ((reads_inherited rfl).andThen ?_)
  refine (reads_ahead _).andThen ((reads_ahead _).andThen ?_)
  rw [if_pos (by rfl)]
  refine hsignature.discard.bind ((reads_op?_of_not rfl).andThen ?_)
  exact (g.reads_body hsign hstatements rest).discard

theorem not_atSignature_const (hi : i.isName = true) (ts : List Token) :
    atSignature false (.word "const" :: .ident i :: ts) = false := by
  have hword : ∀ w ∈ Ident.reservedWords, atWord w (.ident i :: ts) = false :=
    fun w hw => Ident.not_isWord_of_isName hi hw
  have hconst : afterWord "const" (.word "const" :: .ident i :: ts) = .ident i :: ts := rfl
  have hskip : ∀ w ∈ Ident.reservedWords, afterWord w (.ident i :: ts) = .ident i :: ts := by
    intro w hw
    unfold afterWord
    rw [hword w hw]
    rfl
  unfold atSignature
  simp only [hconst, hskip "async" (by decide), hskip "unsafe" (by decide),
    hword "extern" (by decide), hword "fn" (by decide), Bool.false_and, Bool.false_eq_true, if_false]

/-- The parameters of a method that takes a reference to the value and nothing else. -/
theorem answers_params_self (rest : List Token) :
    Answers g.params (.paren [.punct '&' false, .word "self"] :: rest) rest () :=
  ((Iterates.stop g.reads_paramRound_self).reads.inGroup .paren rest).answers

/-- One parameter. -/
theorem answers_params_single (hi : i.isName = true) (hdots : atOp "..." ts = false)
    (h : Answers ((rules g).type true) ts [] shape) (rest : List Token) :
    Answers (rules g).params (.paren (.ident i :: .punct ':' false :: ts) :: rest) rest () := by
  obtain ⟨f, h⟩ := h
  exact ((Iterates.stop (g.reads_paramRound_last hi true hdots h)).reads.inGroup .paren rest).answers

/-! ## 4. Implementations -/

theorem answers_members {r : Reader Unit} {members : List Unit} (hsign : atOp "#" inner = false)
    (h : Answers (untilEnd r) inner [] members) (rest : List Token) :
    Answers (g.members r) (.brace inner :: rest) rest () :=
  ((g.reads_innerAttrs_nil hsign).answers.bind h.discard).inGroup .brace rest

/-- An implementation of a trait that is named from the root. -/
theorem answers_implAfter {members : List Unit} (his : ∀ k ∈ j :: is, k.isSegment = true)
    (hi : i.isName = true) (hsign : atOp "#" inner = false)
    (hmembers : Answers (untilEnd (rules g).implMember) inner [] members) (rest : List Token) :
    Answers (rules g).implAfter (.word "impl" :: (NamePath.rooted (j :: is) ++
      .word "for" :: .ident i :: .brace inner :: rest)) rest true := by
  have htrait : Answers ((rules g).type true)
      (NamePath.rooted (j :: is) ++ .word "for" :: .ident i :: .brace inner :: rest)
      (.word "for" :: .ident i :: .brace inner :: rest) (.path false false) :=
    (g.reads_anyType_name true ⟨true, j, is, his⟩ ⟨⟨rfl, rfl⟩, rfl, rfl, rfl⟩).answers
  have htype : Answers (discard ((rules g).type true)) (.ident i :: .brace inner :: rest)
      (.brace inner :: rest) () :=
    (g.reads_anyType_name true (ofName i hi) (endsType_brace inner rest)).discard.answers
  obtain ⟨f, hhead⟩ := htrait
  obtain ⟨f', htype⟩ := htype
  obtain ⟨f'', hmembers⟩ := (rules g).answers_members hsign hmembers rest
  refine ⟨.plain [.word "impl"] ++ (f ++ (.plain [.word "for"] ++ (f' ++ f''))), ?_⟩
  refine (reads_word?_of_not rfl).discard.andThen ((reads_word?_of_not rfl).discard.andThen ?_)
  refine (reads_word rfl _).bind ?_
  rw [NamePath.rooted_cons] at hhead ⊢
  refine (reads_sees _ _).andThen ((reads_ahead _).andThen (reads_get fun _ _ => ?_))
  refine hhead.bind ((reads_word?_of_at rfl _).bind (htype.bind ?_))
  refine ((rules g).reads_whereClause_none rfl).discard.andThen ?_
  exact hmembers.before (reads_pure true rest)

/-- An implementation of a trait is an item that is not looked into. -/
theorem answers_anyItem_impl (h : Answers g.implAfter (.word "impl" :: ts) rest true) :
    ∃ f, Answers g.anyItem (.word "impl" :: ts) rest (.other f) := by
  obtain ⟨f, h⟩ := h
  refine ⟨.empty ++ .empty ++ f, Answers.printing ⟨.empty, reads_get fun _ _ => ?_⟩⟩
  refine (reads_outerAttrs_nil g rfl).captured.andThen ?_
  refine (reads_inherited rfl).captured.andThen ((reads_ahead _).andThen ?_)
  have hproper : Reads (do return (← g.implAfter) && Visibility.inherited.isInherited)
      (.word "impl" :: ts) rest true f := h.before (reads_pure true rest)
  exact hproper.captured.andThen (reads_pure _ rest)

end Grammar

end EnumCatalog.Syntax
