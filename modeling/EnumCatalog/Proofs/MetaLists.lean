import EnumCatalog.Proofs.CarriedItems

/-!
# Meta items in a list

Tokens that are a meta item by themselves are the same meta item as an argument among others, with a
comma behind them (`Meta.exists_reads`). A value is one exception, of no consequence: a negative
number in last place is one literal, and before a comma it is a sign and a literal (`Meta.Alike`).

So a list is read from the tokens of its items with commas between them (`Meta.exists_listOfTokens?`).
The arguments of an item have fewer tokens than the list that the item stands in
(`Meta.extent_lt_of_mem`), which is what a descent into them goes by.
-/

set_option autoImplicit false

namespace EnumCatalog.Syntax

open Reader Grammar

/-! ## 1. Literals as values -/

/-- All of the tokens is one literal, which is written down as the fragment. -/
inductive IsLiteral : List Token → Fragment → Prop
  | token (text : String) : IsLiteral [.literal text] (.plain [.literal text])
  | truth {i : Ident} (h : (i.isWord "true" || i.isWord "false") = true) :
    IsLiteral [.ident i] (.plain [.ident i])
  | negative (j : Bool) {text : String} (h : isNumber text = true) :
    IsLiteral [.punct '-' j, .literal text] (.plain [.literal ("-" ++ text)])

theorem exists_isLiteral_of_atLiteral {ts : List Token} (h : atLiteral ts = true) :
    ∃ lit rest f, ts = lit ++ rest ∧ IsLiteral lit f := by
  match ts, h with
  | .literal text :: rest, _ => exact ⟨_, rest, _, rfl, .token text⟩
  | .ident i :: rest, hi => exact ⟨_, rest, _, rfl, .truth hi⟩
  | .punct c j :: ts, h =>
    by_cases hc : c = '-'
    · subst hc
      match ts, h with
      | .literal text :: rest, hnumber => exact ⟨_, rest, _, rfl, .negative j hnumber⟩
    · simp [atLiteral, hc] at h

theorem IsLiteral.reads {lit : List Token} {f : Fragment} (h : IsLiteral lit f)
    (rest : List Token) : Reads literal (lit ++ rest) rest () f := by
  cases h with
  | token text => exact reads_literal text rest
  | @truth i hi =>
    refine (reads_ahead _).andThen ((reads_require hi _).andThen ?_)
    exact (reads_next _ rest).andThen (reads_emitTokens _ rest)
  | @negative j text hnumber =>
    refine (reads_ahead _).andThen ((reads_require hnumber _).andThen ?_)
    refine (reads_next _ _).andThen ((reads_next _ rest).andThen ?_)
    exact reads_emitTokens _ rest

theorem isLiteral_of_run? {ts : List Token} (h : (literal.run? ts).isSome = true) :
    ∃ f, IsLiteral ts f := by
  cases hat : atLiteral ts with
  | false =>
    have hfails : Fails literal ts := (reads_ahead ts).fails ((fails_require hat ts).bind _)
    rw [Reader.run?, show StateT.run literal (start ts) = none from hfails [] []] at h
    cases h
  | true =>
    obtain ⟨lit, rest, f, rfl, hlit⟩ := exists_isLiteral_of_atLiteral hat
    rw [Reader.run?, show StateT.run literal (start (lit ++ rest)) = _ from
      hlit.reads rest [] []] at h
    cases rest with
    | nil =>
      rw [List.append_nil]
      exact ⟨f, hlit⟩
    | cons t rest => cases h

/-- Tokens with a comma among them are no literal. -/
theorem run?_literal_append (ts : List Token) (j : Bool) (rest : List Token) :
    (literal.run? (ts ++ .punct ',' j :: rest)).isSome = false := by
  by_contra h
  obtain ⟨f, hlit⟩ := isLiteral_of_run? (eq_true_of_ne_false h)
  have hmem : Token.punct ',' j ∈ ts ++ .punct ',' j :: rest := by simp
  generalize ts ++ .punct ',' j :: rest = us at hlit hmem
  cases hlit <;> simp at hmem

namespace Grammar

theorem reads_atom_truth (g : Grammar) (struct : Bool) {i : Ident}
    (h : (i.isWord "true" || i.isWord "false") = true) (rest : List Token) :
    Reads (g.atom struct) (.ident i :: rest) rest .other (.plain [.ident i]) := by
  refine reads_get fun _ _ => ?_
  have hat : atLiteral (.ident i :: rest) = true := h
  rw [if_pos hat]
  exact ((IsLiteral.truth h).reads rest).before (reads_pure _ rest)

/-- A literal is also read as an expression, which writes down the same string if it is one. -/
theorem exists_reads_value (g : Grammar) {lit rest : List Token} {f : Fragment}
    (h : IsLiteral lit f) (hrest : ClosedBy closers rest) :
    ∃ f', f'.stringValue? = f.stringValue? ∧
      Reads (rules (rules (rules g))).value (lit ++ rest) rest () f' := by
  cases h with
  | token text => exact ⟨_, rfl, reads_value_literal (rules g) text hrest⟩
  | @truth i hi =>
    refine ⟨.plain [.ident i] ++ .empty, rfl, ?_⟩
    have hopens : OpensWord (.ident i :: rest) := trivial
    exact reads_value (rules g) (opensOperand_of_opensWord hopens)
      (reads_atom_truth _ true hi rest) ((endsExpr_of_closedBy hrest).reads_trailers _) hrest
  | @negative j text hnumber =>
    refine ⟨_, ?_, reads_value_negative g text hrest⟩
    show none = Literal.stringValue? ("-" ++ text)
    simp [Literal.stringValue?]

end Grammar

/-! ## 2. An item before a comma -/

namespace Meta

/-- The same, but for a value that is no string or the same string. -/
inductive Alike : Meta → Meta → Prop
  | refl (m : Meta) : Alike m m
  | value (p : Path) {v v' : Fragment} (h : v'.stringValue? = v.stringValue?) :
    Alike (.value p v) (.value p v')

/-- What `r` reads as a meta item where nothing is behind, `r'` reads as much the same one where the
tail is. -/
def Carried (tail : List Token) (r r' : Reader Meta) : Prop :=
  ∀ c m d, r c = some (m, d) → d.rest = [] →
    ∃ m', Alike m m' ∧ r' (c.before tail) = some (m', d.before tail)

/-- What stands behind the equals sign of a value. -/
def readValue (expr : Reader Unit) (p : Path) : Reader Meta := do
  let ts ← Reader.ahead
  if (literal.run? ts).isSome then
    let (_, v) ← captured literal
    return .value p v
  else
    require !(atOp "#" ts && atGroup .bracket ts.tail)
    let (_, v) ← captured expr
    return .value p v

section

variable {tail : List Token}

theorem carried_of_carries {r r' : Reader Meta} (h : Carries tail r r') : Carried tail r r' :=
  fun c m d hread _ => ⟨m, .refl m, (h c m d hread).2⟩

theorem Carried.after {α : Type} {r r' : Reader α} {k k' : α → Reader Meta}
    (hr : Carries tail r r') (hk : ∀ a, Carried tail (k a) (k' a)) :
    Carried tail (r >>= k) (r' >>= k') := by
  intro c m e hread hend
  obtain ⟨a, d, hd, he⟩ := of_bind hread
  obtain ⟨m', halike, hread'⟩ := hk a d m e he hend
  refine ⟨m', halike, ?_⟩
  rw [bind_apply, (hr c a d hd).2, Option.bind_some, hread']

theorem Carried.ahead {k k' : List Token → Reader Meta}
    (hk : ∀ ts, Carried tail (k ts) (k' (ts ++ tail))) :
    Carried tail (Reader.ahead >>= k) (Reader.ahead >>= k') := fun c => hk c.rest c

theorem Carried.branch {p : Prop} [Decidable p] {r r' s s' : Reader Meta}
    (hr : Carried tail r r') (hs : Carried tail s s') :
    Carried tail (if p then r else s) (if p then r' else s') := by
  split
  · exact hr
  · exact hs

theorem Carried.printing {r r' : Reader Meta} (h : Carried tail r r') {ts : List Token} {m : Meta}
    (hread : (printing fragment r).run? ts = some m) :
    ∃ m', Alike m m' ∧ Reads (printing fragment r') (ts ++ tail) tail m' m'.fragment := by
  unfold Reader.run? at hread
  split at hread
  · next m₁ c hc =>
    split at hread
    · next hend =>
      cases hread
      obtain ⟨d, hd, hrest⟩ := rest_of_printing hc
      rw [hrest] at hend
      obtain ⟨m', halike, hread'⟩ := h _ m d hd (List.isEmpty_iff.mp hend)
      refine ⟨m', halike, fun printed mentioned => ?_⟩
      have hread'' : r' ⟨ts ++ tail, [], []⟩ = some (m', d.before tail) := hread'
      have hcaptured : captured r' ⟨ts ++ tail, printed, mentioned⟩ =
          some ((m', written (d.before tail)), ⟨tail, printed, mentioned⟩) := by
        unfold captured
        rw [hread'']
        rw [Cursor.before, List.isEmpty_iff.mp hend, List.nil_append]
      unfold Reader.printing silent
      rw [bind_apply, bind_apply, hcaptured]
      rfl
    · cases hread
  · cases hread

end

variable {g g' : Grammar} (h : g.Below (rules (rules (rules g')))) {tail : List Token}
  (ht : ClosedBy [','] tail)

include h ht

/-- A literal in last place is a value of its own, and before a comma it is an expression. -/
theorem carried_readValue (p : Path) :
    Carried tail (readValue g.value p) (readValue (rules (rules (rules g'))).value p) := by
  -- If anything follows it is a comma, which neither kind of value goes past.
  match tail, ht with
  | [], _ =>
    refine carried_of_carries <| .ahead_nil fun ts => .branch ?_ ?_
    · exact (carries_literal closedBy_nil).captured.bind fun x => carries_pure (Meta.value p x.2)
    · exact (carries_require id).bind fun _ => (h.value closedBy_nil).captured.bind fun x =>
        carries_pure (Meta.value p x.2)
  | .punct x j :: tail, hx =>
    obtain rfl := List.mem_singleton.mp hx
    have ht : ClosedBy [','] (.punct ',' j :: tail) := closedBy_punct List.mem_cons_self j tail
    intro c m d hread hend
    unfold readValue at hread ⊢
    have hcomma : (literal.run? (c.before (.punct ',' j :: tail)).rest).isSome = false :=
      run?_literal_append c.rest j tail
    rw [ahead_bind] at hread ⊢
    rw [hcomma, if_neg Bool.false_ne_true]
    split at hread
    · next hliteral =>
      obtain ⟨f, hf⟩ := isLiteral_of_run? hliteral
      obtain ⟨rest, printed, mentioned⟩ := c
      have halone : Reads (captured literal >>= fun x => pure (Meta.value p x.2)) rest []
          (.value p f) .empty := by
        have hreads := hf.reads []
        rw [List.append_nil] at hreads
        exact hreads.captured.andThen (reads_pure _ [])
      have heq := (halone printed mentioned).symm.trans hread
      cases heq
      obtain ⟨f', hstring, hvalue⟩ := exists_reads_value g' hf (ht.mono (by decide : [','] ⊆ closers))
      refine ⟨.value p f', .value p hstring, ?_⟩
      have hsign : (!(atOp "#" (rest ++ .punct ',' j :: tail) &&
          atGroup .bracket (rest ++ .punct ',' j :: tail).tail)) = true := by
        cases hf <;> rfl
      exact ((reads_require hsign _).andThen (hvalue.captured.andThen
        (reads_pure (Meta.value p f') _))) printed mentioned
    · have hsign : Overlooks (.punct ',' j :: tail)
          fun ts => !(atOp "#" ts && atGroup .bracket ts.tail) :=
        ((ht.overlooks_atOp rfl).and_tail rfl (ht.overlooks_atGroup .bracket)).not
      exact carried_of_carries ((carries_require_ahead hsign c.rest).bind fun _ =>
        (h.value ht).captured.bind fun x => carries_pure (Meta.value p x.2)) c m d hread hend

theorem carried_readAfter (p : Path) :
    Carried tail (readAfter g.value p) (readAfter (rules (rules (rules g'))).value p) := by
  refine .ahead fun ts => ?_
  rw [ht.overlooks_atAnyGroup, (ht.overlooks_atOp rfl), (ht.overlooks_atOp rfl), (ht.overlooks_atOp rfl)]
  refine .branch ?_ (.branch ?_ (carried_of_carries (carries_pure _)))
  · exact carried_of_carries
      (carries_anyGroup.silent.bind fun x => carries_pure (Meta.list p x.1 x.2))
  · exact .after (carries_op "=").silent fun _ => carried_readValue h ht p

/-- Tokens that are a meta item are much the same one in front of a comma. -/
theorem exists_reads {ts : List Token} {m : Meta} (hread : (read g.value).run? ts = some m) :
    ∃ m', Alike m m' ∧
      Reads (read (rules (rules (rules g'))).value) (ts ++ tail) tail m' m'.fragment := by
  refine Carried.printing ?_ hread
  refine .after (carries_sees (ht.overlooks_atWord _)) fun _ => .branch ?_ ?_
  · exact .after carries_anyIdent fun i => carried_readAfter h ht (.ofIdent i)
  · exact .after (carries_readPlain ht) fun p => carried_readAfter h ht p

end Meta

/-! ## 3. Lists -/

/-- Items with commas between them; a comma may also follow the last. -/
inductive Joins : List (List Token) → List Token → Prop
  | nil : Joins [] []
  | last (item : List Token) : Joins [item] item
  | more (item : List Token) (j : Bool) {items : List (List Token)} {ts : List Token}
    (h : Joins items ts) : Joins (item :: items) (item ++ .punct ',' j :: ts)

namespace Meta

theorem ne_nil_of_ofTokens? {ts : List Token} {m : Meta} (h : ofTokens? ts = some m) : ts ≠ [] := by
  rintro rfl
  cases h

/-- An item is read in front of a comma by a grammar that suffices for all of the list. -/
theorem exists_reads_item {item tail : List Token} {m : Meta} {k : Nat}
    (hitem : ofTokens? item = some m) (ht : ClosedBy [','] tail) (hk : Token.sizeAll item ≤ k) :
    ∃ m', Alike m m' ∧
      Reads (read (ofDepth (8 * k + 16)).value) (item ++ tail) tail m' m'.fragment := by
  have hle : enough item ≤ 8 * k + 16 := by
    unfold enough
    omega
  have hbelow : (ofDepth (enough item)).Below (rules (rules (rules (ofDepth (8 * k + 13))))) :=
    show Below _ (ofDepth (8 * k + 16)) from below_ofDepth hle
  exact exists_reads hbelow ht hitem

theorem exists_commaList {items : List (List Token)} {ts : List Token} {ms : List Meta} {k : Nat}
    (h : Joins items ts) (hitems : List.Forall₂ (fun item m => ofTokens? item = some m) items ms)
    (hk : Token.sizeAll ts ≤ k) : ∃ as f, List.Forall₂ Alike ms (as.map Prod.fst) ∧
      CommaList (read (ofDepth (8 * k + 16)).value) ts as f := by
  -- Item by item. The bound holds for each item, since it holds for all tokens together.
  induction h generalizing ms with
  | nil =>
    cases hitems
    exact ⟨[], _, .nil, .nil⟩
  | last item =>
    cases hitems with
    | cons hitem hnil =>
      cases hnil
      obtain ⟨m', halike, hreads⟩ := exists_reads_item hitem closedBy_nil hk
      rw [List.append_nil] at hreads
      exact ⟨[(m', false)], _, .cons halike .nil, .last (ne_nil_of_ofTokens? hitem) hreads⟩
  | more item j h ih =>
    cases hitems with
    | cons hitem hitems =>
      rw [Token.sizeAll_append, Token.sizeAll] at hk
      obtain ⟨as, f, halikes, hlist⟩ := ih hitems (by omega)
      have hclosed (mid : List Token) : ClosedBy [','] (.punct ',' j :: mid) :=
        closedBy_punct List.mem_cons_self j mid
      obtain ⟨m', halike, hreads⟩ := exists_reads_item hitem (hclosed _) (by omega : _ ≤ k)
      exact ⟨(m', true) :: as, _, .cons halike halikes, .more (by simp; omega) hreads hlist⟩

/-- What are meta items by themselves are a list of much the same meta items together. -/
theorem exists_listOfTokens? {items : List (List Token)} {ts : List Token} {ms : List Meta}
    (h : Joins items ts) (hitems : List.Forall₂ (fun item m => ofTokens? item = some m) items ms) :
    ∃ ms', List.Forall₂ Alike ms ms' ∧ listOfTokens? ts = some ms' := by
  obtain ⟨as, f, halike, hlist⟩ := exists_commaList h hitems (Nat.le_refl _)
  exact ⟨_, halike, hlist.reads.map.run?⟩

/-! ## 4. The extent of an item -/

/-- The number of tokens between the brackets of a list. -/
def extent : Meta → Nat
  | .list _ _ arguments => Token.sizeAll arguments
  | _ => 0

theorem extent_of_readAfter {expr : Reader Unit} {p : Path} {m : Meta} {c d : Cursor}
    (h : readAfter expr p c = some (m, d)) : m.extent = 0 ∨ m.extent < Token.sizeAll c.rest := by
  obtain ⟨ts, printed, mentioned⟩ := c
  unfold readAfter at h
  rw [ahead_bind] at h
  split at h
  · next hgroup =>
    match ts, hgroup with
    | .group d inner :: ts, _ =>
      cases h
      exact .inr (by simp only [extent, Token.sizeAll, Token.size]; omega)
  · split at h
    · obtain ⟨_, e, -, h⟩ := of_bind h
      rw [ahead_bind] at h
      split at h
      · obtain ⟨x, e', -, h⟩ := of_bind h
        cases h
        exact .inl rfl
      · obtain ⟨_, e', -, h⟩ := of_bind h
        obtain ⟨x, e'', -, h⟩ := of_bind h
        cases h
        exact .inl rfl
    · cases h
      exact .inl rfl

theorem sizeAll_le_of_suffix {ts ts' : List Token} (h : ts' <:+ ts) :
    Token.sizeAll ts' ≤ Token.sizeAll ts := by
  obtain ⟨front, rfl⟩ := h
  rw [Token.sizeAll_append]
  exact Nat.le_add_left _ _

theorem sizeAll_pos {ts : List Token} (h : ts ≠ []) : 0 < Token.sizeAll ts := by
  match ts, h with
  | t :: ts, _ =>
    cases t <;> simp only [Token.sizeAll, Token.size] <;> omega

/-- The arguments of an item are among the tokens that it is read from. -/
theorem extent_lt_of_read {expr : Reader Unit} {m : Meta} {c d : Cursor}
    (h : read expr c = some (m, d)) : m.extent < Token.sizeAll c.rest := by
  have hne : c.rest ≠ [] := by
    intro hnil
    obtain ⟨ts, printed, mentioned⟩ := c
    cases hnil
    cases h
  obtain ⟨c₁, h, -⟩ := rest_of_printing h
  rw [sees_bind] at h
  have hafter : ∃ p e, e.rest <:+ c.rest ∧ readAfter expr p e = some (m, c₁) := by
    split at h
    · obtain ⟨i, e, hident, h⟩ := of_bind h
      have hcarries : Carries [] anyIdent anyIdent := carries_anyIdent
      exact ⟨_, e, (hcarries _ _ _ hident).1, h⟩
    · obtain ⟨p, e, hpath, h⟩ := of_bind h
      exact ⟨p, e, (carries_readPlain closedBy_nil _ _ _ hpath).1, h⟩
  obtain ⟨p, e, hsuffix, hafter⟩ := hafter
  have hpos := sizeAll_pos hne
  have hle := sizeAll_le_of_suffix hsuffix
  have hextent := extent_of_readAfter hafter
  omega

theorem extent_lt_of_round {expr : Reader Unit} {a : Meta × Bool} {c d : Cursor}
    (h : commaRound (read expr) c = some (some a, d)) : a.1.extent < Token.sizeAll c.rest := by
  unfold commaRound atEnd at h
  rw [sees_bind] at h
  split at h
  · cases h
  · obtain ⟨m, e, hread, h⟩ := of_bind h
    rw [sees_bind] at h
    split at h
    · cases h
      exact extent_lt_of_read hread
    · obtain ⟨_, e', -, h⟩ := of_bind h
      cases h
      exact extent_lt_of_read hread

theorem extent_lt_of_rounds {expr : Reader Unit} (hexpr : Carries [] expr expr) {n : Nat}
    {c d : Cursor} {as : List (Meta × Bool)}
    (h : collect.rounds (commaRound (read expr)) n c = some (as, d)) :
    ∀ a ∈ as, a.1.extent < Token.sizeAll c.rest := by
  induction n generalizing c as with
  | zero => cases h
  | succ n ih =>
    obtain ⟨x, e, hround, h⟩ := of_bind h
    have hsuffix := ((carries_read hexpr).commaRound c x e hround).1
    cases x with
    | none =>
      cases h
      exact fun a ha => absurd ha List.not_mem_nil
    | some a =>
      obtain ⟨as', e', hrounds, h⟩ := of_bind h
      cases h
      intro b hb
      cases hb with
      | head => exact extent_lt_of_round hround
      | tail _ hb => exact Nat.lt_of_lt_of_le (ih hrounds b hb) (sizeAll_le_of_suffix hsuffix)

/-- An item's arguments are among the tokens of the list that the item stands in. -/
theorem extent_lt_of_mem {ts : List Token} {ms : List Meta} (h : listOfTokens? ts = some ms)
    {m : Meta} (hm : m ∈ ms) : m.extent < Token.sizeAll ts := by
  have hexpr := (below_ofDepth (Nat.le_refl (enough ts))).value closedBy_nil
  unfold listOfTokens? read? Reader.run? at h
  split at h
  · next ms' c hread =>
    split at h
    · cases h
      change (commaList _ >>= fun x => pure x.1) (start ts) = some (ms, c) at hread
      obtain ⟨x, c', hlist, hread⟩ := of_bind hread
      cases hread
      obtain ⟨as, c'', hcollect, hlist⟩ := of_bind hlist
      cases hlist
      obtain ⟨a, ha, rfl⟩ := List.mem_map.mp hm
      exact extent_lt_of_rounds hexpr hcollect a ha
    · cases h
  · cases h

end Meta

end EnumCatalog.Syntax
