import EnumCatalog.Proofs.Functions
import EnumCatalog.Proofs.Parsing

/-!
# Enums, read forward

An enum prints as tokens from which it is read again. Names, paths and brackets do so by themselves;
values, discriminants and bounds are not looked into, and for them it is asked that they are read
back (`Enum.ReadsBack`). Everything else is known of the enum because it was read before
(`Enum.WasRead`).
-/

set_option autoImplicit false

namespace EnumCatalog.Syntax

open Reader

variable {ts rest : List Token}

/-! ## 1. Attributes -/

namespace Meta

/-- What stands behind the path is read back. Only a value is more than it looks. -/
def ReadsBack (g : Grammar) : Meta → Prop
  | .value p v => Reads (readAfter g.value p) (.punct '=' false :: v.tokens) [] (.value p v) .empty
  | _ => True

/-- What stands behind the path. -/
def tokensAfter : Meta → List Token
  | .path _ => []
  | .list _ d arguments => [.group d arguments]
  | .value _ v => .punct '=' false :: v.tokens

variable {g : Grammar} {m : Meta}

theorem tokens_fragment (m : Meta) : m.fragment.tokens = m.name.fragment.tokens ++ m.tokensAfter := by
  cases m with
  | path p => exact (List.append_nil _).symm
  | list p d arguments => rfl
  | value p v => exact List.append_assoc _ _ _

theorem ReadsBack.reads_readAfter (h : m.ReadsBack g) :
    Reads (readAfter g.value m.name) m.tokensAfter [] m .empty := by
  cases m with
  | path p => exact reads_readAfter_path g.value p trivial
  | list p d arguments => exact reads_readAfter_list g.value p d arguments []
  | value p v => exact h

theorem not_colons_tokensAfter (m : Meta) : atOp "::" m.tokensAfter = false := by
  cases m <;> rfl

/-- What an attribute says is read back from how it prints. -/
theorem ReadsBack.reads (h : m.ReadsBack g) (hname : m.HasName) :
    Reads (read g.value) m.fragment.tokens [] m m.fragment := by
  rw [tokens_fragment]
  have hafter := h.reads_readAfter
  obtain ⟨q, hq⟩ | ⟨i, hi, hname⟩ := hname
  · rw [hq] at hafter ⊢
    rw [q.fragment_toPath]
    exact reads_read g.value q m.not_colons_tokensAfter hafter
  · rw [hname] at hafter ⊢
    refine Reads.printing (f := .plain [.ident i]) ((reads_sees _ _).andThen ?_)
    show Reads (if i.isWord "unsafe" then _ else _) _ _ _ _
    rw [hi]
    exact (reads_anyIdent i _).before hafter

end Meta

/-- The attributes in front of something are read back. -/
theorem Attribute.outer_of_readsBack {g : Grammar} {as : List Attribute}
    (has : ∀ a ∈ as, a.WasRead false) (hback : ∀ a ∈ as, a.content.ReadsBack g) :
    Outer g.value (Fragment.concat (as.map fragment)).tokens as := by
  induction as with
  | nil => exact .nil
  | cons a as ih =>
    obtain ⟨inner, m⟩ := a
    obtain ⟨rfl, hname⟩ := has _ List.mem_cons_self
    have hm := (hback _ List.mem_cons_self).reads hname
    exact .cons false hm (ih (fun a ha => has a (List.mem_cons_of_mem _ ha))
      fun a ha => hback a (List.mem_cons_of_mem _ ha))

/-! ## 2. Visibilities -/

namespace Visibility

variable {i j : Ident}

/-- A restriction in parentheses is read if what is between them is. -/
theorem reads_within {q : NamePath} (i : Ident) (ts : List Token) :
    Reads read (.word "pub" :: .paren (.word "in" :: q.tokens) :: .ident i :: ts) (.ident i :: ts)
      (.within true q.toPath) (fragment (.within true q.toPath)) := by
  have hpath : Reads Path.readPlain (q.tokens ++ []) [] q.toPath q.fragment := q.reads_readPlain rfl
  rw [List.append_nil] at hpath
  have hinner : Reads (do word "in"; return within true (← Path.readPlain))
      (.word "in" :: q.tokens) [] (.within true q.toPath) (.plain [.word "in"] ++ q.fragment) :=
    (reads_word rfl _).bind (hpath.before (reads_pure _ []))
  refine Reads.printing (f := .plain [.word "pub"] ++
    (.plain [.word "in"] ++ q.fragment : Fragment).within .paren) ?_
  refine (reads_word?_of_at rfl _).bind ((reads_ahead _).andThen ?_)
  exact hinner.inGroup .paren _

/-- A restriction to a word. -/
theorem reads_within_word (hj : words.any j.isWord = true) (i : Ident) (ts : List Token) :
    Reads read (.word "pub" :: .paren [.ident j] :: .ident i :: ts) (.ident i :: ts)
      (.within false (.ofIdent j)) (fragment (.within false (.ofIdent j))) := by
  obtain ⟨w, hw, hword⟩ := List.any_eq_true.mp hj
  have hne : w ≠ "in" := by
    rintro rfl
    revert hw
    decide
  have hin : atWord "in" [.ident j] = false := Ident.not_isWord_of_isWord hword hne
  have hwords : (atWordIn ["crate", "self", "super"] [.ident j] &&
      [Token.ident j].tail.isEmpty) = true :=
    Bool.and_eq_true_iff.mpr ⟨hj, rfl⟩
  have hinner : Reads (do return within false (.ofIdent (← anyIdent))) [.ident j] []
      (.within false (.ofIdent j)) (.plain [.ident j]) :=
    (reads_anyIdent j []).before (reads_pure _ [])
  refine Reads.printing (f := .plain [.word "pub"] ++ Fragment.within .paren (.plain [.ident j])) ?_
  refine (reads_word?_of_at rfl _).bind ((reads_ahead _).andThen ?_)
  show Reads (if atWord "in" [.ident j] then _ else if _ then _ else _) _ _ _ _
  rw [hin, if_neg Bool.false_ne_true, if_pos hwords]
  exact hinner.inGroup .paren _

/-- No attribute opens with a visibility, or with the word behind it. -/
theorem not_sign (vis : Visibility) (i : Ident) (ts : List Token) :
    atOp "#" (vis.fragment.tokens ++ .ident i :: ts) = false := by
  cases vis <;> rfl

/-- A visibility in front of a word is read back from how it prints. -/
theorem WasRead.reads {vis : Visibility} (h : vis.WasRead) (hi : i.isWord "pub" = false)
    (ts : List Token) :
    Reads read (vis.fragment.tokens ++ .ident i :: ts) (.ident i :: ts) vis vis.fragment := by
  cases vis with
  | inherited => exact Grammar.reads_inherited hi
  | everyone => exact Grammar.reads_everyone i ts
  | within isIn p =>
    cases isIn with
    | true =>
      obtain ⟨q, rfl⟩ := h
      have htokens : (fragment (.within true q.toPath)).tokens =
          [.word "pub", .paren (.word "in" :: q.tokens)] := by
        simp [fragment, Fragment.within, Fragment.plain, NamePath.fragment, Token.paren]
      rw [htokens]
      exact reads_within i ts
    | false =>
      obtain ⟨j, hj, rfl⟩ := h
      exact reads_within_word hj i ts

end Visibility

/-! ## 3. Variants -/

namespace Variant

/-- The pieces of a variant that are not looked into are read back. -/
structure ReadsBack (g : Grammar) (v : Variant) : Prop where
  attrs : ∀ a ∈ v.attrs, a.content.ReadsBack g
  discriminant : ∀ d, v.discriminant = some d → ∀ rest, ClosedBy [','] rest →
    Reads g.value (d.tokens ++ rest) rest () d

/-- What stands behind the name of a variant without fields. -/
def tokensAfter (v : Variant) : List Token :=
  match v.discriminant with
  | some d => .punct '=' false :: d.tokens
  | none => []

variable {g : Grammar} {v : Variant}

theorem tokens_fragment (hfields : v.fields = .unit) : v.fragment.tokens =
    (Fragment.concat (v.attrs.map Attribute.fragment)).tokens ++ .ident v.ident :: v.tokensAfter := by
  obtain ⟨attrs, ident, fields, discriminant⟩ := v
  obtain rfl : fields = .unit := hfields
  cases discriminant <;> simp [fragment, tokensAfter, Fields.fragment, Fragment.plain, Fragment.empty]

theorem closedBy_tokensAfter (v : Variant) (hrest : ClosedBy [','] rest) :
    ClosedBy [',', '='] (v.tokensAfter ++ rest) := by
  unfold tokensAfter
  cases v.discriminant with
  | none => exact hrest.mono (by decide)
  | some d => exact closedBy_punct (by decide) false _

/-- What stands behind the name is read back. -/
theorem ReadsBack.answers_after (h : v.ReadsBack g) (hfields : v.fields = .unit)
    (hrest : ClosedBy [','] rest) : Answers (do
      let discriminant ← if ← op? "=" then pure (some (← captured g.value).2) else pure none
      return (⟨v.attrs, v.ident, .unit, discriminant⟩ : Variant)) (v.tokensAfter ++ rest) rest v := by
  have hdiscriminant := h.discriminant
  obtain ⟨attrs, ident, fields, discriminant⟩ := v
  obtain rfl : fields = .unit := hfields
  cases discriminant with
  | none =>
    refine (reads_op?_of_not (hrest.not_atOp (by decide))).answers.bind ?_
    exact (answers_pure none rest).bind (answers_pure _ rest)
  | some d =>
    have hd := hdiscriminant d rfl rest hrest
    refine (reads_op?_of_at rfl rfl).answers.bind (hd.captured.answers.bind ?_)
    exact (answers_pure (some d) rest).bind (answers_pure _ rest)

/-- A variant without fields is read back from how it prints. -/
theorem ReadsBack.reads (h : v.ReadsBack g) (hread : v.WasRead) (hfields : v.fields = .unit)
    (hrest : ClosedBy [','] rest) :
    Reads g.variant (v.fragment.tokens ++ rest) rest v v.fragment := by
  have hattrs := Attribute.outer_of_readsBack hread.attrs h.attrs
  have hpub : atWord "pub" (.ident v.ident :: (v.tokensAfter ++ rest)) = false :=
    Ident.not_isWord_of_isName hread.ident (by decide)
  have hclosed := v.closedBy_tokensAfter hrest
  obtain ⟨f, hafter⟩ := h.answers_after hfields hrest
  rw [tokens_fragment hfields, List.append_assoc, List.cons_append]
  refine Reads.printing (f := .concat (v.attrs.map Attribute.fragment) ++
    (.plain [.ident v.ident] ++ f)) ((hattrs.reads rfl).bind ?_)
  refine (Grammar.reads_inherited hpub).discard.andThen ((reads_name hread.ident _).bind ?_)
  refine (reads_ahead _).andThen ?_
  simp only [hclosed.not_atGroup, Bool.false_eq_true, if_false]
  exact (reads_pure Fields.unit _).andThen hafter

end Variant

/-- The variants of an enum with commas between them are read back. -/
theorem Variant.commaList_of_readsBack {g : Grammar} {vs : List Variant} (trailing : Bool)
    (h : ∀ v ∈ vs, v.ReadsBack g ∧ v.WasRead ∧ v.fields = .unit) :
    ∃ as f, CommaList g.variant (Fragment.commaSeparated trailing (vs.map fragment)).tokens as f ∧
      as.map Prod.fst = vs ∧ (vs ≠ [] → (as.getLast?.map Prod.snd).getD false = trailing) := by
  -- By the variants: after the last one there may be a comma, after each of the others there is
  -- one.
  induction vs with
  | nil => exact ⟨[], _, .nil, rfl, fun hne => absurd rfl hne⟩
  | cons v vs ih =>
    obtain ⟨hback, hread, hfields⟩ := h v List.mem_cons_self
    cases vs with
    | nil =>
      have htokens : (Fragment.commaSeparated trailing [v.fragment]).tokens =
          v.fragment.tokens ++ lastComma trailing := by
        cases trailing with
        | true => rfl
        | false => exact (List.append_nil _).symm
      have hne : v.fragment.tokens ≠ [] := by
        rw [tokens_fragment hfields]
        exact List.append_ne_nil_of_right_ne_nil _ (List.cons_ne_nil _ _)
      have hclosed : ClosedBy [','] (lastComma trailing) := by
        cases trailing <;> simp [lastComma, ClosedBy]
      have hsingle := CommaList.single trailing hne (hback.reads hread hfields hclosed)
      rw [← htokens] at hsingle
      exact ⟨_, _, hsingle, rfl, fun _ => rfl⟩
    | cons w vs =>
      obtain ⟨as, f, hlist, hfst, hlast⟩ := ih fun u hu => h u (List.mem_cons_of_mem _ hu)
      have htokens : (Fragment.commaSeparated trailing ((v :: w :: vs).map fragment)).tokens =
          v.fragment.tokens ++ .punct ',' false ::
            (Fragment.commaSeparated trailing ((w :: vs).map fragment)).tokens :=
        List.append_assoc _ _ _
      have hne : as ≠ [] := by
        rintro rfl
        cases hfst
      have hlt : (Fragment.commaSeparated trailing ((w :: vs).map fragment)).tokens.length <
          (v.fragment.tokens ++ .punct ',' false ::
            (Fragment.commaSeparated trailing ((w :: vs).map fragment)).tokens).length := by
        rw [List.length_append, List.length_cons]
        omega
      rw [htokens]
      refine ⟨(v, true) :: as, _, .more hlt (hback.reads hread hfields ?_) hlist, ?_, fun _ => ?_⟩
      · exact closedBy_punct List.mem_cons_self false _
      · rw [List.map_cons, hfst]
      · rw [List.getLast?_cons_of_ne_nil hne]
        exact hlast (List.cons_ne_nil _ _)

/-! ## 4. Enums -/

namespace Enum

/-- The pieces of an enum that are not looked into are read back. -/
structure ReadsBack (g : Grammar) (e : Enum) : Prop where
  attrs : ∀ a ∈ e.attrs, a.content.ReadsBack g
  whereClause : e.whereClause ≠ .empty → ∀ inner rest,
    Reads g.whereClause (e.whereClause.tokens ++ .brace inner :: rest) (.brace inner :: rest)
      e.whereClause e.whereClause
  variants : ∀ v ∈ e.variants, v.ReadsBack g

/-- An enum without generic parameters whose variants have no fields. -/
structure IsPlain (e : Enum) : Prop where
  generics : e.isGeneric = false
  fields : ∀ v ∈ e.variants, v.fields = .unit

/-- What stands between the braces. -/
def body (e : Enum) : List Token :=
  (Fragment.commaSeparated e.trailing (e.variants.map Variant.fragment)).tokens

variable {g : Grammar} {e : Enum}

theorem generics_of_isPlain (h : e.IsPlain) (hread : e.WasRead) : e.generics = .empty :=
  hread.generics (by simpa [isGeneric] using h.generics)

theorem tokens_fragment (hgenerics : e.generics = .empty) : e.fragment.tokens =
    (Fragment.concat (e.attrs.map Attribute.fragment)).tokens ++ (e.vis.fragment.tokens ++
      .word "enum" :: .ident e.ident :: (e.whereClause.tokens ++ [.brace e.body])) := by
  unfold fragment
  rw [hgenerics]
  simp [Fragment.plain, Fragment.within, Fragment.empty, body, Token.brace]

theorem WasRead.not_generics (hread : e.WasRead) (inner rest : List Token) :
    atOp "<" (e.whereClause.tokens ++ .brace inner :: rest) = false := by
  obtain hempty | ⟨f, hwhere⟩ := hread.whereClause
  · rw [hempty]
    rfl
  · rw [hwhere]
    rfl

theorem ReadsBack.reads_whereClause (h : e.ReadsBack g) (inner rest : List Token) :
    Reads g.whereClause (e.whereClause.tokens ++ .brace inner :: rest) (.brace inner :: rest)
      e.whereClause e.whereClause := by
  by_cases hempty : e.whereClause = .empty
  · rw [hempty]
    exact g.reads_whereClause_none rfl
  · exact h.whereClause hempty inner rest

theorem ReadsBack.answers_enumAfter (h : e.ReadsBack g) (hread : e.WasRead) (hplain : e.IsPlain)
    (rest : List Token) :
    Answers (g.enumAfter e.attrs e.vis)
      (.word "enum" :: .ident e.ident :: (e.whereClause.tokens ++ .brace e.body :: rest)) rest e := by
  obtain ⟨as, f, hlist, hfst, hlast⟩ := Variant.commaList_of_readsBack e.trailing
    fun v hv => ⟨h.variants v hv, hread.variants v hv, hplain.fields v hv⟩
  have htrailing : (as.getLast?.map Prod.snd).getD false = e.trailing := by
    by_cases hnil : e.variants = []
    · rw [hnil, List.map_eq_nil_iff] at hfst
      rw [hfst, hread.trailing hnil]
      rfl
    · exact hlast hnil
  have hbody := (hlist.reads.inGroup .brace rest).answers
  rw [hfst, htrailing] at hbody
  refine (reads_word rfl _).answers.bind ((reads_name hread.ident _).answers.bind ?_)
  refine (g.reads_generics_none (hread.not_generics e.body rest)).answers.bind ?_
  refine (h.reads_whereClause e.body rest).answers.bind (hbody.bind ?_)
  rw [← generics_of_isPlain hplain hread]
  exact answers_pure e rest

/-- An enum is read back from how it prints, in front of anything. -/
theorem ReadsBack.reads (h : e.ReadsBack g) (hread : e.WasRead) (hplain : e.IsPlain)
    (rest : List Token) :
    Reads g.anyItem (e.fragment.tokens ++ rest) rest (.enum e) e.fragment := by
  obtain ⟨f, hafter⟩ := h.answers_enumAfter hread hplain rest
  have hattrs := Attribute.outer_of_readsBack hread.attrs h.attrs
  have hvis := hread.vis.reads (i := .plain "enum") rfl
    (.ident e.ident :: (e.whereClause.tokens ++ .brace e.body :: rest))
  rw [tokens_fragment (generics_of_isPlain hplain hread)]
  simp only [List.append_assoc, List.cons_append, List.nil_append]
  refine Reads.printing (f := f) (reads_get fun _ _ => ?_)
  refine (hattrs.reads (e.vis.not_sign _ _)).captured.andThen (hvis.captured.andThen ?_)
  exact (reads_ahead _).andThen (hafter.before (reads_pure _ rest))

/-- The pieces are read back at every depth that suffices for the enum. That is up to the rules of
expressions and types and to how these print. -/
def IsReadBack (e : Enum) : Prop :=
  ∀ n, Grammar.enough e.fragment.tokens ≤ n → e.ReadsBack (Grammar.ofDepth n)

end Enum

/-! ## 5. Literals -/

/-- Whether it is a literal and nothing else. -/
def Fragment.isLiteral (f : Fragment) : Bool :=
  match f.tokens with
  | [.literal _] => f.mentions.isEmpty
  | _ => false

theorem Fragment.exists_of_isLiteral {f : Fragment} (h : f.isLiteral = true) :
    ∃ text, f = .plain [.literal text] := by
  obtain ⟨tokens, mentions⟩ := f
  unfold isLiteral at h
  split at h
  · next text htokens =>
    obtain rfl : tokens = [.literal text] := htokens
    obtain rfl : mentions = [] := List.isEmpty_iff.mp h
    exact ⟨text, rfl⟩
  · cases h

/-- Whether it is a literal with a minus sign before it. -/
def Fragment.isNegative (f : Fragment) : Bool :=
  match f.tokens with
  | [.punct '-' false, .literal _] => f.mentions.isEmpty
  | _ => false

theorem Fragment.exists_of_isNegative {f : Fragment} (h : f.isNegative = true) :
    ∃ text, f = .plain [.punct '-' false, .literal text] := by
  obtain ⟨tokens, mentions⟩ := f
  unfold isNegative at h
  split at h
  · next text htokens =>
    obtain rfl : tokens = [.punct '-' false, .literal text] := htokens
    obtain rfl : mentions = [] := List.isEmpty_iff.mp h
    exact ⟨text, rfl⟩
  · cases h

/-- Whether the value, if there is one, is a literal. -/
def Meta.hasLiteral : Meta → Bool
  | .value _ v => v.isLiteral
  | _ => true

theorem Meta.readsBack_of_hasLiteral (g : Grammar) {m : Meta} (h : m.hasLiteral = true) :
    m.ReadsBack (Grammar.rules (Grammar.rules g)) := by
  cases m with
  | value p v =>
    obtain ⟨text, rfl⟩ := Fragment.exists_of_isLiteral h
    exact reads_readAfter_literal g p false trivial
  | path p => trivial
  | list p d arguments => trivial

namespace Enum

/-- Whether all values and discriminants are literals, these perhaps with a minus sign, and nothing is
asked of other types. -/
def hasLiterals (e : Enum) : Bool :=
  e.attrs.all (·.content.hasLiteral) && e.whereClause.isEmpty &&
    e.variants.all fun v => v.attrs.all (·.content.hasLiteral) &&
      v.discriminant.all fun d => d.isLiteral || d.isNegative

variable {e : Enum}

theorem whereClause_of_isEmpty (hread : e.WasRead) (h : e.whereClause.isEmpty = true) :
    e.whereClause = .empty := by
  obtain hempty | ⟨f, hwhere⟩ := hread.whereClause
  · exact hempty
  · rw [hwhere] at h
    cases h

/-- Literals are read back. -/
theorem isReadBack_of_hasLiterals (hread : e.WasRead) (h : e.hasLiterals = true) :
    e.IsReadBack := by
  intro n hn
  obtain ⟨m, rfl⟩ : ∃ m, n = m + 3 := ⟨n - 3, by unfold Grammar.enough at hn; omega⟩
  let g := Grammar.ofDepth (m + 1)
  obtain ⟨h, hvariants⟩ := Bool.and_eq_true_iff.mp h
  obtain ⟨hattrs, hwhere⟩ := Bool.and_eq_true_iff.mp h
  refine ⟨fun a ha => Meta.readsBack_of_hasLiteral g (List.all_eq_true.mp hattrs a ha),
    fun hne => absurd (whereClause_of_isEmpty hread hwhere) hne, fun v hv => ?_⟩
  obtain ⟨hattrs, hdiscriminant⟩ := Bool.and_eq_true_iff.mp (List.all_eq_true.mp hvariants v hv)
  refine ⟨fun a ha => Meta.readsBack_of_hasLiteral g (List.all_eq_true.mp hattrs a ha),
    fun d hd rest hrest => ?_⟩
  have hclosed : ClosedBy Grammar.closers rest := hrest.mono (by decide)
  rw [hd] at hdiscriminant
  obtain hliteral | hnegative := Bool.or_eq_true_iff.mp hdiscriminant
  · obtain ⟨text, rfl⟩ := Fragment.exists_of_isLiteral hliteral
    exact g.reads_value_literal text hclosed
  · obtain ⟨text, rfl⟩ := Fragment.exists_of_isNegative hnegative
    exact (Grammar.ofDepth m).reads_value_negative text hclosed

end Enum

end EnumCatalog.Syntax
