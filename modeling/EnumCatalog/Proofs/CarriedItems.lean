import EnumCatalog.Proofs.CarriedExpressions
import EnumCatalog.Proofs.PathReading

/-!
# Items, statements and depth

The rules of items and statements keep the relation between a grammar and one that reads more
(`Grammar.Below`), so a grammar is below every deeper one (`Grammar.below_ofDepth`).

Two rules need an argument of their own. A statement that turns out to be an item is read again from
its attributes on. And the parameter of a function is read as a receiver if it can be: a grammar that
reads more might find a receiver where the other finds a pattern and a type. It does not, since
pattern and receiver are then the same words, and the type that follows is read in both or in neither
(`IsTied.fails_param`).
-/

set_option autoImplicit false

namespace EnumCatalog

theorem Ident.eq_plain_of_isWord {i : Ident} {w : String} (h : i.isWord w = true)
    (hw : Text.isIdentText w.toList = true) : i = .plain w hw := by
  obtain ⟨raw, name, isText, canBeRaw⟩ := i
  simp only [isWord, Bool.and_eq_true, Bool.not_eq_true', beq_iff_eq] at h
  obtain ⟨rfl, rfl⟩ := h
  rfl

namespace Syntax

open Reader

namespace Grammar

/-! ## 1. Receivers -/

/-- A receiver up to its colon; answers whether there is one. -/
def receiverHead : Reader Bool := do
  discard (word? "mut")
  word "self"
  op? ":"

theorem receiver_of_ref (g g' : Grammar) {c : Cursor} (h : atOp "&" c.rest = true) :
    g.receiver c = g'.receiver c := by
  obtain ⟨ts, printed, mentioned⟩ := c
  unfold receiver
  rw [bind_apply, bind_apply, reads_op?_of_at h rfl]
  rfl

theorem receiver_eq (g : Grammar) {c : Cursor} (h : atOp "&" c.rest = false) :
    g.receiver c = (receiverHead c).bind fun x =>
      (if x.1 then discard (g.type true) else emit ⟨[], ["Self"]⟩) x.2 := by
  obtain ⟨ts, printed, mentioned⟩ := c
  have hseq : g.receiver ⟨ts, printed, mentioned⟩ = (receiverHead >>= fun b =>
      if b then discard (g.type true) else emit ⟨[], ["Self"]⟩) ⟨ts, printed, mentioned⟩ := by
    unfold receiver receiverHead
    rw [bind_apply, reads_op?_of_not h, Option.bind_some, bind_assoc, bind_assoc]
    rfl
  rw [hseq, bind_apply]

/-- The words of a receiver before a colon. -/
def receiverWords (mutable : Bool) : List Token :=
  (if mutable then [.word "mut"] else []) ++ [.word "self"]

theorem reads_receiverHead (mutable : Bool) (j : Bool) (ts : List Token) :
    Reads receiverHead (receiverWords mutable ++ .punct ':' j :: ts) ts true
      (.plain (receiverWords mutable ++ [.punct ':' false])) := by
  have hself : Reads (word "self") (.word "self" :: .punct ':' j :: ts) (.punct ':' j :: ts) ()
      (.plain [.word "self"]) := reads_word rfl _
  have hcolon : Reads (op? ":") (.punct ':' j :: ts) ts true (.plain [.punct ':' false]) :=
    reads_op?_of_at (by cases j <;> rfl) rfl
  have hrest : Reads (word "self" >>= fun _ => op? ":") (.word "self" :: .punct ':' j :: ts) ts true
      (.plain [.word "self", .punct ':' false]) := by
    have hbind := hself.bind (k := fun _ => op? ":") hcolon
    exact hbind
  cases mutable with
  | true =>
    have hmut : Reads (word? "mut") (.word "mut" :: .word "self" :: .punct ':' j :: ts)
        (.word "self" :: .punct ':' j :: ts) true (.plain [.word "mut"]) := reads_word?_of_at rfl _
    have hbind := hmut.discard.bind (k := fun _ => word "self" >>= fun _ => op? ":") hrest
    exact hbind
  | false =>
    have hmut : Reads (word? "mut") (.word "self" :: .punct ':' j :: ts)
        (.word "self" :: .punct ':' j :: ts) false .empty := reads_word?_of_not rfl
    exact hmut.discard.andThen hrest

/-- Where a colon follows a receiver, the tokens are its words and the colon. -/
theorem exists_of_receiverHead {ts printed : List Token} {mentioned : List String} {e : Cursor}
    (h : receiverHead ⟨ts, printed, mentioned⟩ = some (true, e)) :
    ∃ mutable j ts', ts = receiverWords mutable ++ .punct ':' j :: ts' := by
  -- The part from `self` on is read alike with and without a `mut` before it.
  have hself {ts printed : List Token} {mentioned : List String}
      (h : (word "self" >>= fun _ => op? ":") ⟨ts, printed, mentioned⟩ = some (true, e)) :
      ∃ j ts', ts = .word "self" :: .punct ':' j :: ts' := by
    cases hat : atWord "self" ts with
    | false =>
      rw [(fails_word hat).bind] at h
      cases h
    | true =>
      match ts, hat with
      | .ident i :: ts, hi =>
        rw [bind_apply, reads_word hi, Option.bind_some] at h
        cases hcolon : atOp ":" ts with
        | false =>
          rw [reads_op?_of_not hcolon] at h
          cases h
        | true =>
          match ts, hcolon with
          | .punct c j :: ts, hc =>
            obtain rfl : ':' = c := beq_iff_eq.mp hc
            exact ⟨j, ts, by rw [Ident.eq_plain_of_isWord hi rfl]; rfl⟩
  unfold receiverHead at h
  cases hat : atWord "mut" ts with
  | false =>
    rw [bind_apply, (reads_word?_of_not hat).discard, Option.bind_some] at h
    obtain ⟨j, ts', rfl⟩ := hself h
    exact ⟨false, j, ts', rfl⟩
  | true =>
    match ts, hat with
    | .ident i :: ts, hi =>
      rw [bind_apply, (reads_word?_of_at hi ts).discard, Option.bind_some] at h
      obtain ⟨j, ts', rfl⟩ := hself h
      exact ⟨true, j, ts', by rw [Ident.eq_plain_of_isWord hi rfl]; rfl⟩

theorem atPathPattern_self (ts : List Token) :
    atPathPattern (.word "self" :: ts) = atOp "::" ts := by
  show ((false && _) || (true && atOp "::" ts) || false || false || false) = _
  rw [Bool.false_and, Bool.true_and, Bool.false_or, Bool.or_false, Bool.or_false, Bool.or_false]

/-- A pattern reads the words of a receiver, unless it takes the colon for the first of two. -/
theorem reads_anyPattern_receiver (g : Grammar) {mutable : Bool} {j : Bool} {ts : List Token}
    (h : mutable = true ∨ atOp "::" (.punct ':' j :: ts) = false) :
    Reads g.anyPattern (receiverWords mutable ++ .punct ':' j :: ts) (.punct ':' j :: ts) .other
      (.plain (receiverWords mutable)) := by
  have hself : Reads (do word "self"; if ← op? "@" then discard g.pattern)
      (.word "self" :: .punct ':' j :: ts) (.punct ':' j :: ts) () (.plain [.word "self"]) := by
    refine Reads.before (reads_word rfl _) ?_
    exact (reads_op?_of_not (by cases j <;> rfl)).andThen (reads_pure () _)
  refine reads_get fun _ _ => ?_
  cases mutable with
  | true =>
    have hbinding : Reads g.bindingPattern (.word "mut" :: .word "self" :: .punct ':' j :: ts)
        (.punct ':' j :: ts) () (.plain [.word "mut", .word "self"]) := by
      have hmut : Reads (discard (word? "mut")) (.word "mut" :: .word "self" :: .punct ':' j :: ts)
          (.word "self" :: .punct ':' j :: ts) () (.plain [.word "mut"]) :=
        (reads_word?_of_at rfl _).discard
      refine (reads_word?_of_not rfl).discard.andThen ?_
      have hbind := hmut.bind (k := fun _ => do word "self"; if ← op? "@" then discard g.pattern) hself
      exact hbind
    exact hbinding.before (reads_pure _ _)
  | false =>
    have hnot := h.resolve_left Bool.false_ne_true
    have hbinding : Reads g.bindingPattern (.word "self" :: .punct ':' j :: ts)
        (.punct ':' j :: ts) () (.plain [.word "self"]) :=
      (reads_word?_of_not rfl).discard.andThen ((reads_word?_of_not rfl).discard.andThen hself)
    show Reads (if atPathPattern (.word "self" :: .punct ':' j :: ts) = true then _ else _) _ _ _ _
    rw [atPathPattern_self, hnot]
    exact hbinding.before (reads_pure _ _)

theorem fails_segment (g : Grammar) {ts : List Token} (h : atOp ":" ts = true) (exprStyle : Bool) :
    Fails (g.segment exprStyle) ts := by
  match ts, h with
  | .punct c j :: ts, _ =>
    exact fun _ _ => rfl

/-- Three colons follow no pattern. -/
theorem fails_anyPattern_receiver (g : Grammar) {ts : List Token} {j : Bool}
    (h : atOp "::" (.punct ':' j :: ts) = true) (h' : atOp ":" (ts.drop 1) = true) :
    Fails g.anyPattern (receiverWords false ++ .punct ':' j :: ts) := by
  show Fails g.anyPattern (.word "self" :: .punct ':' j :: ts)
  have hparen : atGroup .paren (ts.drop 1) = false := by
    match ts.drop 1, h' with
    | .punct c j :: ts', _ => rfl
  have hsegment : Reads (g.segment true) (.word "self" :: .punct ':' j :: ts) (.punct ':' j :: ts)
      ⟨.plain "self", none⟩ (Segment.fragment ⟨.plain "self", none⟩) :=
    Reads.printing <| (reads_ahead _).andThen <| (reads_anyIdent _ _).before (reads_pure _ _)
  -- The word is taken for the start of a path, which then lacks a segment after its colons.
  have hmore : Fails (g.moreSegments true) (.punct ':' j :: ts) := by
    refine .collect <| (reads_ahead _).fails ?_
    show Fails (if (atOp "::" (.punct ':' j :: ts) && !atGroup .paren (ts.drop 1)) = true then _
      else _) _
    rw [h, hparen]
    exact (reads_op h rfl).fails ((fails_segment g h' true).bind _)
  have hpath : Fails (g.path true) (.word "self" :: .punct ':' j :: ts) :=
    .printing <| (reads_op?_of_not rfl).fails <| hsegment.fails (hmore.bind _)
  have hqualified : Fails (g.qualifiedPath true) (.word "self" :: .punct ':' j :: ts) :=
    .printing <| (reads_sees (atOp "<") _).fails (hpath.bind _)
  refine fails_get fun _ _ => ?_
  show Fails (if atPathPattern (.word "self" :: .punct ':' j :: ts) = true then _ else _) _
  rw [atPathPattern_self, h]
  exact hqualified.bind _

/-- No type opens with a point, nor with a colon that is not the first of two. -/
theorem IsTied.fails_type {g : Grammar} (hg : g.IsTied) (plus : Bool) {c : Char}
    (hc : c ∈ ['.', ':']) {j : Bool} {ts : List Token} (h : atOp "::" (.punct c j :: ts) = false) :
    Fails (g.type plus) (.punct c j :: ts) := by
  obtain rfl | ⟨g, rfl⟩ := hg
  · exact fun _ _ => rfl
  have hop {d : Char} (hd : d ∉ ['.', ':']) : atChars [d] (.punct c j :: ts) = false :=
    atChars_of_ne (fun heq : d = c => hd (heq ▸ hc)) [] j ts
  have hbinder : Reads g.binder? (.punct c j :: ts) (.punct c j :: ts) false .empty :=
    (reads_word?_of_not rfl).andThen (reads_pure false _)
  have hpath : (atPathWord (.punct c j :: ts) || atOp "::" (.punct c j :: ts) ||
      atOp "<" (.punct c j :: ts)) = false := by
    rw [h, show atOp "<" (.punct c j :: ts) = false from hop (by decide)]
    rfl
  refine fails_get fun _ _ => hbinder.fails ((reads_ahead _).fails ?_)
  simp only [hpath, show atOp "*" (.punct c j :: ts) = false from hop (by decide),
    show atOp "&" (.punct c j :: ts) = false from hop (by decide),
    show atOp "!" (.punct c j :: ts) = false from hop (by decide)]
  exact fun _ _ => rfl

/-- Where a type is read there are no three dots, and a colon is the first of two. -/
theorem IsTied.opens_type {g : Grammar} (hg : g.IsTied) {plus : Bool} {c : Cursor}
    (h : g.type plus c ≠ none) :
    atOp "..." c.rest = false ∧ (atOp ":" c.rest = true → atOp "::" c.rest = true) := by
  obtain ⟨ts, printed, mentioned⟩ := c
  match ts with
  | .punct d j :: ts =>
    refine ⟨eq_false_of_ne_true fun hdots => ?_, fun hcolon => ?_⟩
    · have hd : '.' = d := by
        by_contra hne
        have hnot : atOp "..." (Token.punct d j :: ts) = false := atChars_of_ne hne _ j ts
        rw [hnot] at hdots
        cases hdots
      subst hd
      exact h (hg.fails_type plus (by decide) (atChars_of_ne (by decide) _ j ts) _ _)
    · by_contra hne
      obtain rfl : ':' = d := beq_iff_eq.mp hcolon
      exact h (hg.fails_type plus (by decide) (eq_false_of_ne_true hne) _ _)
  | [] => exact ⟨rfl, nofun⟩
  | .ident i :: ts => exact ⟨rfl, nofun⟩
  | .lifetime i :: ts => exact ⟨rfl, nofun⟩
  | .literal text :: ts => exact ⟨rfl, nofun⟩
  | .group d inner :: ts => exact ⟨rfl, nofun⟩

/-- The place behind a receiver's colon. -/
def afterHead (mutable : Bool) (ts printed : List Token) (mentioned : List String) : Cursor :=
  ⟨ts, (receiverWords mutable ++ [Token.punct ':' false]).reverse ++ printed, mentioned⟩

theorem receiverHead_words (mutable j : Bool) (ts printed : List Token) (mentioned : List String) :
    receiverHead ⟨receiverWords mutable ++ .punct ':' j :: ts, printed, mentioned⟩ =
      some (true, afterHead mutable ts printed mentioned) :=
  reads_receiverHead mutable j ts printed mentioned

theorem discard_eq_none_iff {α : Type} {r : Reader α} {c : Cursor} :
    discard r c = none ↔ r c = none := by
  change ((r c).bind fun x => some ((), x.2)) = none ↔ _
  cases r c with
  | none => exact ⟨fun _ => rfl, fun _ => rfl⟩
  | some x => exact ⟨nofun, nofun⟩

/-- Where no type follows a receiver's colon, no pattern with a type is read either. -/
theorem IsTied.fails_param {g : Grammar} (hg : g.IsTied) {mutable j : Bool}
    {ts printed : List Token} {mentioned : List String}
    (hno : g.type true (afterHead mutable ts printed mentioned) = none)
    (hdots : atOp "..." ts = false) (hcolons : atOp ":" ts = true → atOp "::" ts = true) {β : Type}
    {k : Bool → Reader β} (hk : ∀ e, g.type true e = none → k false e = none) :
    (discard g.pattern >>= fun _ => op ":" >>= fun _ => op? "..." >>= k)
      ⟨receiverWords mutable ++ .punct ':' j :: ts, printed, mentioned⟩ = none := by
  obtain rfl | ⟨g₀, rfl⟩ := hg
  · rfl
  -- Either the pattern ends at the colon, and then the type is missing; or two colons make it go on
  -- as a path, which a third one breaks off.
  by_cases hread : mutable = true ∨ atOp "::" (.punct ':' j :: ts) = false
  · have hpattern := (reads_anyPattern_receiver g₀ hread).discard printed mentioned
    have hcolon : Reads (op ":") (.punct ':' j :: ts) ts () (.plain [.punct ':' false]) :=
      reads_op (by cases j <;> rfl) rfl
    rw [bind_apply, show discard (rules g₀).pattern _ = _ from hpattern, Option.bind_some,
      bind_apply, hcolon, Option.bind_some, bind_apply, reads_op?_of_not hdots, Option.bind_some]
    have hplace : afterHead mutable ts printed mentioned =
        ⟨ts, Token.punct ':' false :: ((receiverWords mutable).reverse ++ printed), mentioned⟩ := by
      cases mutable <;> rfl
    rw [hplace] at hno
    exact hk _ hno
  · obtain ⟨hmutable, hat⟩ := not_or.mp hread
    obtain rfl := eq_false_of_ne_true hmutable
    have hat := eq_true_of_ne_false hat
    obtain ⟨j', hts⟩ := eq_of_atOp_colons hat
    have hsecond : atOp ":" ts = true := by
      rw [(List.cons.inj hts).2]
      rfl
    obtain ⟨j'', hts'⟩ := eq_of_atOp_colons (hcolons hsecond)
    have hthird : atOp ":" (ts.drop 1) = true := by
      rw [hts']
      rfl
    have hfails : Fails (discard (rules g₀).pattern) (receiverWords false ++ .punct ':' j :: ts) :=
      fun _ _ => discard_eq_none_iff.mpr (fails_anyPattern_receiver g₀ hat hthird _ _)
    exact hfails.bind _ printed mentioned

/-- Where a grammar that reads more finds a receiver and this one finds none, this one finds no
pattern with a type either. -/
theorem Below.fails_param {g g' : Grammar} (h : g.Below g') {c : Cursor} {x : Unit × Cursor}
    (hnone : g.receiver c = none) (hsome : g'.receiver c = some x) {β : Type}
    {k : Bool → Reader β} (hk : ∀ e, g.type true e = none → k false e = none) :
    atName c.rest = false ∧
      (discard g.pattern >>= fun _ => op ":" >>= fun _ => op? "..." >>= k) c = none := by
  -- The grammars find the same receivers after a reference. Without one they can differ in the
  -- type.
  cases hamp : atOp "&" c.rest with
  | true =>
    rw [receiver_of_ref g g' hamp, hsome] at hnone
    cases hnone
  | false =>
    rw [receiver_eq g hamp] at hnone
    rw [receiver_eq g' hamp] at hsome
    match hhead : receiverHead c with
    | none =>
      rw [hhead] at hsome
      cases hsome
    | some (false, e) =>
      rw [hhead] at hnone
      cases hnone
    | some (true, e) =>
      obtain ⟨ts, printed, mentioned⟩ := c
      obtain ⟨mutable, j, ts, rfl⟩ := exists_of_receiverHead hhead
      rw [receiverHead_words, Option.bind_some, if_pos rfl] at hnone hsome
      have hyes : g'.type true (afterHead mutable ts printed mentioned) ≠ none := by
        intro hfails
        rw [show discard (g'.type true) _ = none from discard_eq_none_iff.mpr hfails] at hsome
        cases hsome
      obtain ⟨hdots, hcolons⟩ := h.tied'.opens_type hyes
      refine ⟨by cases mutable <;> rfl, ?_⟩
      exact h.tied.fails_param (discard_eq_none_iff.mp hnone) hdots hcolons hk

theorem rel_branch {σ : Type} {tail : List Token} {p : Prop} [Decidable p]
    {o₁ o₁' o₂ o₂' : Option (Reader σ)} (h₁ : Option.Rel (Carries tail) o₁ o₁')
    (h₂ : Option.Rel (Carries tail) o₂ o₂') :
    Option.Rel (Carries tail) (if p then o₁ else o₂) (if p then o₁' else o₂') := by
  split
  · exact h₁
  · exact h₂

/-- What reads all there is. -/
theorem isSome_run?_of_carries {α : Type} {r r' : Reader α} (hr : Carries [] r r') {ts : List Token}
    (hread : (r.run? ts).isSome = true) : (r'.run? ts).isSome = true := by
  unfold Reader.run? at hread ⊢
  cases hrun : StateT.run r (start ts) with
  | none =>
    rw [hrun] at hread
    cases hread
  | some x =>
    have hrun' := (hr _ x.1 x.2 hrun).2
    rw [Cursor.before_nil, Cursor.before_nil] at hrun'
    rw [hrun] at hread
    rw [show StateT.run r' (start ts) = some (x.1, x.2) from hrun']
    exact hread

namespace Below

variable {g g' : Grammar} (h : g.Below g')

include h

/-! ## 2. Functions -/

theorem receiver : Carries [] g.receiver g'.receiver := by
  refine (carries_op? closedBy_nil rfl).bind fun byRef => ?_
  extract_lets rest rest'
  have hrest (u : Unit) : Carries [] (rest u) (rest' u) := by
    refine (carries_word? closedBy_nil _).discard.bind fun _ => (carries_word closedBy_nil _).bind
      fun _ => (carries_op? closedBy_nil rfl).bind fun _ => ?_
    exact .branch (h.type closedBy_nil true).discard (carries_emit _)
  exact .branch ((carries_lifetime? closedBy_nil).discard.bind hrest) (hrest ())

/-- What follows the attempt to read a receiver. -/
theorem receiverOr {β : Type} {k k' : Bool → Reader β} (hk : ∀ b, Carries [] (k b) (k' b))
    (hgap : ∀ c x, g.receiver c = none → g'.receiver c = some x → k false c = none) :
    Carries [] (((do g.receiver; return true) <|> pure false) >>= k)
      (((do g'.receiver; return true) <|> pure false) >>= k') := by
  have horElse (r : Reader Unit) (c : Cursor) : ((do r; return true) <|> pure false : Reader Bool) c =
      some (match r c with | some x => (true, x.2) | none => (false, c)) := by
    change (((r c).bind fun x => some (true, x.2)) <|> some (false, c)) = _
    cases r c <;> rfl
  intro c b d hread
  rw [bind_apply, horElse, Option.bind_some] at hread
  rw [bind_apply, horElse, Option.bind_some, Cursor.before_nil]
  -- Both grammars find a receiver or neither does; the gap between them leads to no reading.
  cases hr : g.receiver c with
  | some x =>
    obtain ⟨hshort, hr'⟩ := h.receiver c x.1 x.2 hr
    rw [hr] at hread
    obtain ⟨hshort', hrest⟩ := hk true x.2 b d hread
    rw [Cursor.before_nil, Cursor.before_nil] at hr'
    rw [Cursor.before_nil] at hrest
    rw [hr']
    exact ⟨hshort'.trans hshort, hrest⟩
  | none =>
    rw [hr] at hread
    cases hr' : g'.receiver c with
    | some x =>
      rw [hgap c x hr hr'] at hread
      cases hread
    | none =>
      have hrest := hk false c b d hread
      rwa [Cursor.before_nil] at hrest

theorem params : Carries [] g.params g'.params := by
  refine .inGroup .paren <| .iterate (fun first => ?_) true
  refine carries_atEnd.bind fun _ => .branch (carries_pure none) ?_
  refine (h.outerAttrs closedBy_nil).bind fun _ => (carries_op? closedBy_nil rfl).bind fun _ =>
    .branch ?_ ?_
  · exact carries_atEnd.bind fun _ =>
      .branch ((carries_op ",").bind fun _ => carries_pure none) (carries_pure none)
  · extract_lets last stop
    have hstop (u : Unit) : Carries [] (stop u) (stop u) := carries_pure none
    have hlast (u : Unit) : Carries [] (last u) (last u) := carries_atEnd.bind fun _ =>
      .branch (carries_pure none) ((carries_op ",").bind fun _ => carries_pure _)
    refine h.receiverOr (fun received => ?_) fun c x hnone hsome => ?_
    · refine .branch ((carries_require id).bind hlast) <| .ahead_nil fun ts => .branch ?_ ?_
      · exact (carries_emitTokens _).bind fun _ => (h.type closedBy_nil true).discard.bind hlast
      · refine (h.pattern closedBy_nil).discard.bind fun _ => (carries_op ":").bind fun _ =>
          (carries_op? closedBy_nil rfl).bind fun _ => .branch ?_ ?_
        · exact carries_atEnd.bind fun _ => .branch ((carries_op ",").bind hstop) (hstop ())
        · exact (h.type closedBy_nil true).discard.bind hlast
    · rw [if_neg Bool.false_ne_true, ahead_bind]
      -- Without a type after the colon the parameter is not read, however the round would go on.
      have htype {e : Cursor} (hfails : g.type true e = none) :
          (discard (g.type true) >>= last) e = none := by
        rw [bind_apply, discard_eq_none_iff.mpr hfails, Option.bind_none]
      obtain ⟨hname, hnone⟩ := h.fails_param hnone hsome (k := fun b => if b then
        atEnd >>= fun b => if !b then op "," >>= stop else stop ()
        else discard (g.type true) >>= last) fun _ => htype
      rw [hname, Bool.false_and, if_neg Bool.false_ne_true]
      exact hnone

theorem signature (allowSafe : Bool) : Carries [] (g.signature allowSafe) (g'.signature allowSafe) := by
  refine (carries_word? closedBy_nil _).discard.bind fun _ =>
    (carries_word? closedBy_nil _).discard.bind fun _ => (carries_word? closedBy_nil _).bind
      fun isUnsafe => ?_
  extract_lets rest rest'
  have hrest (isSafe : Bool) : Carries [] (rest isSafe) (rest' isSafe) := by
    refine (abi? closedBy_nil).bind fun _ => (carries_word closedBy_nil _).bind fun _ =>
      (carries_name closedBy_nil).discard.bind fun _ => h.generics.discard.bind fun _ => ?_
    exact h.params.bind fun _ => (h.returnType closedBy_nil true).discard.bind fun _ =>
      h.whereClause.discard.bind fun _ => carries_pure isSafe
  exact .branch ((carries_word? closedBy_nil _).bind hrest) ((carries_pure false).bind hrest)

/-! ## 3. Data types -/

theorem namedField : Carries [] g.namedField g'.namedField := by
  refine (h.outerAttrs closedBy_nil).bind fun _ => carries_visibility.discard.bind fun _ =>
    (carries_word? closedBy_nil _).bind fun _ => .branch ?_ ?_
  · refine (carries_op ":").bind fun _ => .get_nil fun start => .ahead_nil fun ts =>
      .branch (carries_anyIdent.discard.bind fun _ => .ahead_nil fun ts => ?_)
        (h.type closedBy_nil true).discard
    split
    · extract_lets last members last' members'
      have hlast (u : Unit) : Carries [] (last u) (last' u) := (carries_op ":").bind fun _ =>
        (h.type closedBy_nil true).discard
      have hmembers : Carries [] members members' := by
        refine .commaList <| (h.outerAttrs closedBy_nil).bind fun _ =>
          carries_visibility.discard.bind fun _ => (carries_word? closedBy_nil _).bind fun _ => ?_
        exact .branch ((carries_name closedBy_nil).discard.bind hlast) (hlast ())
      exact (carries_require (isSome_run?_of_carries hmembers)).bind fun _ => carries_anyGroup.discard.bind fun _ =>
        carries_restoreSince_nil start
    · exact carries_failure _
  · exact (carries_name closedBy_nil).discard.bind fun _ => (carries_op ":").bind fun _ =>
      (h.type closedBy_nil true).discard

theorem namedFields : Carries [] g.namedFields g'.namedFields :=
  (Carries.inGroup .brace h.namedField.commaList).discard

theorem unnamedFields : Carries [] g.unnamedFields g'.unnamedFields := by
  refine (Carries.inGroup .paren (.commaList ?_)).discard
  exact (h.outerAttrs closedBy_nil).bind fun _ => carries_visibility.discard.bind fun _ =>
    (h.type closedBy_nil true).discard

theorem structRest : Carries [] g.structRest g'.structRest := by
  refine (carries_sees_nil _).bind fun _ => h.whereClause.discard.bind fun _ =>
    .ahead_nil fun ts => .branch ?_ (.branch h.namedFields (carries_op ";"))
  exact h.unnamedFields.bind fun _ => h.whereClause.discard.bind fun _ => carries_op ";"

theorem variant : Carries [] g.variant g'.variant := by
  refine .printing _ <| (h.outerAttrs closedBy_nil).bind fun attrs =>
    carries_visibility.discard.bind fun _ => (carries_name closedBy_nil).bind fun i =>
      .ahead_nil fun ts => ?_
  extract_lets rest rest'
  have hrest (fields : Fields) : Carries [] (rest fields) (rest' fields) :=
    (carries_op? closedBy_nil rfl).bind fun _ =>
      .branch ((h.value closedBy_nil).captured.bind fun _ => carries_pure _) (carries_pure _)
  refine .branch ?_ (.branch ?_ ((carries_pure _).bind hrest))
  · exact h.namedFields.captured.bind fun _ => (carries_pure _).bind hrest
  · exact h.unnamedFields.captured.bind fun _ => (carries_pure _).bind hrest

theorem enumAfter (attrs : List Attribute) (vis : Visibility) :
    Carries [] (g.enumAfter attrs vis) (g'.enumAfter attrs vis) :=
  (carries_word closedBy_nil _).bind fun _ => (carries_name closedBy_nil).bind fun _ =>
    h.generics.bind fun _ => h.whereClause.bind fun _ =>
      (Carries.inGroup .brace h.variant.commaList).bind fun _ => carries_pure _

/-! ## 4. Imports -/

theorem anyUseTree (allowRoot : Bool) :
    Carries [] (g.anyUseTree allowRoot) (g'.anyUseTree allowRoot) := by
  refine .ahead_nil fun ts => .branch (carries_anyIdent.bind fun i => ?_) ?_
  · refine (carries_op? closedBy_nil rfl).bind fun _ => .branch ?_ ?_
    · exact (h.useTree false).bind fun _ => carries_pure _
    · refine (carries_word? closedBy_nil _).bind fun _ => .branch ?_ (carries_pure _)
      exact (carries_sees_nil _).bind fun _ => (carries_require id).bind fun _ =>
        carries_anyIdent.bind fun _ => carries_pure _
  · refine (carries_op? closedBy_nil rfl).bind fun _ => .branch (carries_pure _) ?_
    refine .bind (.inGroup .brace (.commaList ?_)) fun x => .branch (carries_pure _) (carries_pure _)
    extract_lets rest rest'
    have hrest (rooted : Bool) : Carries [] (rest rooted) (rest' rooted) :=
      (h.useTree _).bind fun _ => carries_pure _
    exact .branch ((carries_op? closedBy_nil rfl).bind hrest) ((carries_pure false).bind hrest)

theorem useAfter (attrs : List Attribute) (vis : Visibility) :
    Carries [] (g.useAfter attrs vis) (g'.useAfter attrs vis) :=
  (carries_word closedBy_nil _).bind fun _ => (carries_op? closedBy_nil rfl).bind fun _ =>
    (h.useTree _).bind fun _ => (carries_op ";").bind fun _ => carries_pure _

omit h in
theorem externCrateAfter (attrs : List Attribute) (vis : Visibility) :
    Carries [] (Grammar.externCrateAfter attrs vis) (Grammar.externCrateAfter attrs vis) := by
  refine (carries_word closedBy_nil _).bind fun _ => (carries_word closedBy_nil _).bind fun _ =>
    (carries_sees_nil _).bind fun _ => ?_
  extract_lets rest
  have hrest (i : Ident) : Carries [] (rest i) (rest i) := by
    refine (carries_word? closedBy_nil _).bind fun _ => ?_
    extract_lets last
    have hlast (rename : Option Ident) : Carries [] (last rename) (last rename) :=
      (carries_op ";").bind fun _ => carries_pure _
    refine .branch ((carries_sees_nil _).bind fun _ => .branch ?_ ?_) ((carries_pure _).bind hlast)
    · exact carries_anyIdent.bind fun _ => (carries_pure _).bind hlast
    · exact (carries_name closedBy_nil).bind fun _ => (carries_pure _).bind hlast
  exact .branch (carries_anyIdent.bind hrest) ((carries_name closedBy_nil).bind hrest)

/-! ## 5. Constants and type aliases -/

theorem constAfter : Carries [] g.constAfter g'.constAfter := by
  refine (carries_sees_nil _).bind fun _ => (carries_require id).bind fun _ =>
    carries_anyIdent.discard.bind fun _ => (carries_sees_nil _).bind fun _ =>
      h.generics.discard.bind fun _ => (carries_op ":").bind fun _ =>
        (h.type closedBy_nil true).discard.bind fun _ => (carries_op? closedBy_nil rfl).bind fun _ => ?_
  extract_lets rest rest'
  have hrest (u : Unit) : Carries [] (rest u) (rest' u) :=
    (carries_sees_nil _).bind fun _ => h.whereClause.discard.bind fun _ =>
      (carries_op ";").bind fun _ => carries_pure _
  exact .branch ((h.value closedBy_nil).bind hrest) (hrest ())

/-- Bounds with plus signs between them. -/
theorem boundsBetween (stops : List Token → Bool) (allowCaptures allowConst : Bool) :
    Carries []
      (repeatWhile do
        if ← sees stops then return false
        discard (g.bound allowCaptures allowConst)
        if ← sees stops then return false
        op "+"
        return true)
      (repeatWhile do
        if ← sees stops then return false
        discard (g'.bound allowCaptures allowConst)
        if ← sees stops then return false
        op "+"
        return true) :=
  .repeatWhile <| (carries_sees_nil _).bind fun _ => .branch (carries_pure false) <|
    (h.bound closedBy_nil _ _).discard.bind fun _ => (carries_sees_nil _).bind fun _ =>
      .branch (carries_pure false) <| (carries_op "+").bind fun _ => carries_pure true

theorem typeAlias (place : WherePlace) : Carries [] (g.typeAlias place) (g'.typeAlias place) := by
  refine (carries_word closedBy_nil _).bind fun _ => (carries_name closedBy_nil).discard.bind
    fun _ => h.generics.discard.bind fun _ => (carries_sees_nil _).bind fun hasBounds =>
      (afterColon closedBy_nil (h.boundsBetween _ _ _)).bind fun _ => ?_
  extract_lets rest rest'
  have hrest (hasWhere : Bool) : Carries [] (rest hasWhere) (rest' hasWhere) := by
    dsimp -zeta only [rest, rest']
    extract_lets rest rest'
    have hrest (u : Unit) : Carries [] (rest u) (rest' u) := by
      refine (carries_op? closedBy_nil rfl).bind fun hasValue => ?_
      extract_lets last rest rest'
      have hlast (u : Unit) : Carries [] (last u) (last u) :=
        (carries_op ";").bind fun _ => carries_pure _
      have hrest (u : Unit) : Carries [] (rest u) (rest' u) :=
        .branch (h.whereClause.discard.bind hlast) (hlast ())
      exact .branch ((h.type closedBy_nil true).discard.bind hrest) (hrest ())
    exact .branch (h.whereClause.discard.bind hrest) (hrest ())
  exact .branch ((carries_pure false).bind hrest) ((carries_sees_nil _).bind hrest)

/-! ## 6. Members of traits and implementations -/

omit h in
theorem macroCall (allowName : Bool) :
    Carries [] (Grammar.macroCall allowName) (Grammar.macroCall allowName) := by
  refine (carries_readPlain closedBy_nil).discard.bind fun _ => (carries_op "!").bind fun _ =>
    (carries_sees_nil _).bind fun _ => ?_
  extract_lets rest
  have hrest (u : Unit) : Carries [] (rest u) (rest u) := carries_anyGroup.bind fun x =>
    .branch (carries_op ";") (carries_pure ())
  exact .branch (carries_anyIdent.discard.bind hrest) (hrest ())

theorem foreignMember : Carries [] g.foreignMember g'.foreignMember := by
  refine .get_nil fun start => (h.outerAttrs closedBy_nil).bind fun _ => carries_visibility.bind
    fun vis => .ahead_nil fun ts => .branch ?_ (.branch ?_ (.branch ?_ ?_))
  · refine (h.signature true).bind fun isSafe => (carries_sees_nil _).bind fun hasBody => ?_
    extract_lets last
    have hlast (u : Unit) : Carries [] (last u) (last u) :=
      .branch (carries_restoreSince_nil start) (carries_pure ())
    exact .branch (h.body.discard.bind hlast) ((carries_op ";").bind hlast)
  · extract_lets marked rest rest'
    have hrest (u : Unit) : Carries [] (rest u) (rest' u) := by
      refine (carries_word closedBy_nil _).bind fun _ => (carries_word? closedBy_nil _).discard.bind
        fun _ => (carries_name closedBy_nil).discard.bind fun _ => (carries_op ":").bind fun _ =>
          (h.type closedBy_nil true).discard.bind fun _ => (carries_op? closedBy_nil rfl).bind
            fun hasValue => ?_
      extract_lets last
      have hlast (u : Unit) : Carries [] (last u) (last u) := (carries_op ";").bind fun _ =>
        .branch (carries_restoreSince_nil start) (carries_pure ())
      exact .branch ((h.value closedBy_nil).bind hlast) (hlast ())
    exact .branch (carries_anyIdent.discard.bind hrest) (hrest ())
  · exact (h.typeAlias .either).bind fun x =>
      .branch (carries_restoreSince_nil start) (carries_pure ())
  · exact (carries_require id).bind fun _ => macroCall false

theorem traitMember : Carries [] g.traitMember g'.traitMember := by
  refine .get_nil fun start => (h.outerAttrs closedBy_nil).bind fun _ => carries_visibility.bind
    fun vis => (carries_word? closedBy_nil _).bind fun isDefault => .ahead_nil fun ts => ?_
  extract_lets last called
  have hlast (proper : Bool) : Carries [] (last proper) (last proper) :=
    .branch (carries_restoreSince_nil start) (carries_pure ())
  have hcalled (u : Unit) : Carries [] (called u) (called u) := (carries_pure true).bind hlast
  refine .branch ?_ (.branch ?_ (.branch ?_ ?_))
  · exact (h.signature false).discard.bind fun _ => (carries_sees_nil _).bind fun _ =>
      .branch (h.body.discard.bind hcalled) ((carries_op ";").bind hcalled)
  · refine (carries_word closedBy_nil _).bind fun _ => (carries_sees_nil _).bind fun isGeneric =>
      (carries_sees_nil _).bind fun _ => (carries_require id).bind fun _ =>
        carries_anyIdent.discard.bind fun _ => h.generics.discard.bind fun _ =>
          (carries_op ":").bind fun _ => (h.type closedBy_nil true).discard.bind fun _ =>
            (carries_op? closedBy_nil rfl).bind fun _ => ?_
    extract_lets rest rest'
    have hrest (u : Unit) : Carries [] (rest u) (rest' u) :=
      (carries_sees_nil _).bind fun _ => h.whereClause.discard.bind fun _ =>
        (carries_op ";").bind fun _ => (carries_pure _).bind hlast
    exact .branch ((h.value closedBy_nil).bind hrest) (hrest ())
  · exact (h.typeAlias .afterValue).discard.bind fun _ => (carries_pure true).bind hlast
  · exact (carries_require id).bind fun _ => (macroCall false).bind fun _ =>
      (carries_pure true).bind hlast

theorem implMember : Carries [] g.implMember g'.implMember := by
  refine .get_nil fun start => (h.outerAttrs closedBy_nil).bind fun _ => carries_visibility.bind
    fun vis => .ahead_nil fun ts => ?_
  extract_lets isDefault rest rest'
  have hrest (u : Unit) : Carries [] (rest u) (rest' u) := by
    refine .ahead_nil fun ts => .branch ?_ (.branch ?_ (.branch ?_ ?_))
    · exact (h.signature false).discard.bind fun _ => (carries_op? closedBy_nil rfl).bind fun _ =>
        .branch (carries_restoreSince_nil start) h.body.discard
    · exact (carries_word closedBy_nil _).bind fun _ => h.constAfter.bind fun _ =>
        .branch (carries_restoreSince_nil start) (carries_pure ())
    · exact (h.typeAlias .afterValue).bind fun x =>
        .branch (carries_restoreSince_nil start) (carries_pure ())
    · exact (carries_require id).bind fun _ => macroCall false
  exact .branch ((carries_word closedBy_nil _).bind hrest) (hrest ())

/-! ## 7. Blocks of members -/

theorem members {member member' : Reader Unit} (hmember : Carries [] member member') :
    Carries [] (g.members member) (g'.members member') :=
  .inGroup .brace <| h.innerAttrs.bind fun _ => hmember.untilEnd.discard

theorem traitRest : Carries [] g.traitRest g'.traitRest :=
  (afterColon closedBy_nil (h.boundsBetween _ _ _)).bind fun _ => h.whereClause.discard.bind fun _ =>
    h.members h.traitMember

theorem traitAfter (allowAlias : Bool) :
    Carries [] (g.traitAfter allowAlias) (g'.traitAfter allowAlias) := by
  refine (carries_word? closedBy_nil _).discard.bind fun _ =>
    (carries_word? closedBy_nil _).discard.bind fun _ => (carries_word closedBy_nil _).bind fun _ =>
      (carries_name closedBy_nil).discard.bind fun _ => h.generics.discard.bind fun _ =>
        (carries_sees_nil _).bind fun _ => .branch ?_ h.traitRest
  exact (carries_op "=").bind fun _ => (h.boundsBetween _ _ _).bind fun _ =>
    h.whereClause.discard.bind fun _ => carries_op ";"

theorem implAfter : Carries [] g.implAfter g'.implAfter := by
  refine (carries_word? closedBy_nil _).discard.bind fun _ =>
    (carries_word? closedBy_nil _).discard.bind fun _ => (carries_word closedBy_nil _).bind fun _ =>
      (carries_sees_nil _).bind fun _ => ?_
  extract_lets rest rest'
  have hrest (u : Unit) : Carries [] (rest u) (rest' u) := by
    refine .ahead_nil fun ts => ?_
    extract_lets isConst rest rest'
    have hrest (u : Unit) : Carries [] (rest u) (rest' u) := by
      refine .get_nil fun start => ?_
      extract_lets ts isNegative rest rest'
      have hrest (u : Unit) : Carries [] (rest u) (rest' u) := by
        refine (h.type closedBy_nil true).bind fun first => (carries_word? closedBy_nil _).bind
          fun isFor => ?_
        extract_lets ofTrait rest rest'
        have hrest (u : Unit) : Carries [] (rest u) (rest' u) :=
          h.whereClause.discard.bind fun _ => (h.members h.implMember).bind fun _ => carries_pure _
        exact .branch ((h.type closedBy_nil true).discard.bind hrest)
          (.branch ((carries_restoreSince_nil start).bind hrest) (hrest ()))
      exact .branch ((carries_op "!").bind hrest) (hrest ())
    refine .branch ?_ (hrest ())
    exact (carries_op? closedBy_nil rfl).discard.bind fun _ => (carries_word closedBy_nil _).bind hrest
  exact .branch (h.generics.discard.bind hrest) (hrest ())

theorem foreignBlock : Carries [] g.foreignBlock g'.foreignBlock :=
  (carries_word? closedBy_nil _).discard.bind fun _ => (abi closedBy_nil).bind fun _ =>
    h.members h.foreignMember

/-! ## 8. Modules and items -/

theorem moduleAfter (attrs : List Attribute) (vis : Visibility) :
    Carries [] (g.moduleAfter attrs vis) (g'.moduleAfter attrs vis) := by
  refine (carries_word? closedBy_nil _).bind fun isUnsafe => (carries_word closedBy_nil _).bind
    fun _ => (carries_sees_nil _).bind fun _ => ?_
  extract_lets rest rest'
  have hrest (i : Ident) : Carries [] (rest i) (rest' i) := by
    refine (carries_op? closedBy_nil rfl).bind fun _ => .branch (carries_pure _) ?_
    refine .bind (.inGroup .brace ?_) fun x => carries_pure _
    exact h.innerAttrs.bind fun _ => h.item.untilEnd.bind fun _ => carries_pure _
  exact .branch (carries_anyIdent.bind hrest) ((carries_name closedBy_nil).bind hrest)

theorem opaqueItem? (vis : Visibility) (ts : List Token) :
    Option.Rel (Carries []) (g.opaqueItem? vis ts) (g'.opaqueItem? vis ts) := by
  have htraitAfter (allowAlias : Bool) : Carries [] (g.traitAfter allowAlias >>= fun _ => pure true)
      (g'.traitAfter allowAlias >>= fun _ => pure true) :=
    (h.traitAfter allowAlias).bind fun _ => carries_pure true
  have hforeign : Carries [] (g.foreignBlock >>= fun _ => pure true)
      (g'.foreignBlock >>= fun _ => pure true) := h.foreignBlock.bind fun _ => carries_pure true
  have himpl : Carries [] (g.implAfter >>= fun b => pure (b && vis.isInherited))
      (g'.implAfter >>= fun b => pure (b && vis.isInherited)) :=
    h.implAfter.bind fun _ => carries_pure _
  -- The heads of items in the order of the rule; those with a lemma of their own are settled here.
  refine rel_branch (.some ?_) <| rel_branch (rel_branch (.some hforeign) .none) <|
    rel_branch (.some ?_) <| rel_branch (.some ?_) <|
    rel_branch (rel_branch (.some (htraitAfter false)) <| rel_branch (.some himpl) <|
      rel_branch (.some hforeign) .none) <|
    rel_branch (.some ?_) <| rel_branch (.some ?_) <| rel_branch (.some ?_) <|
    rel_branch (.some (htraitAfter true)) <| rel_branch (.some (htraitAfter false)) <|
    rel_branch (.some himpl) <| rel_branch (.some ?_) <| rel_branch (.some ?_) .none
  · exact (h.signature false).discard.bind fun _ => (carries_op? closedBy_nil rfl).bind fun _ =>
      .branch (carries_pure false) (h.body.discard.bind fun _ => carries_pure true)
  · refine (carries_word closedBy_nil _).bind fun _ => (carries_word? closedBy_nil _).discard.bind
      fun _ => (carries_name closedBy_nil).discard.bind fun _ => (carries_op? closedBy_nil rfl).bind
        fun hasType => ?_
    extract_lets rest rest'
    have hrest (u : Unit) : Carries [] (rest u) (rest' u) := by
      refine (carries_op? closedBy_nil rfl).bind fun hasValue => ?_
      extract_lets last
      have hlast (u : Unit) : Carries [] (last u) (last u) := (carries_op ";").bind fun _ =>
        (carries_require id).bind fun _ => carries_pure _
      exact .branch ((h.value closedBy_nil).bind hlast) (hlast ())
    exact .branch ((h.type closedBy_nil true).discard.bind hrest) (hrest ())
  · exact (carries_word closedBy_nil _).bind fun _ => h.constAfter
  · exact (h.typeAlias .beforeValue).bind fun x => carries_pure _
  · exact (carries_word closedBy_nil _).bind fun _ => (carries_name closedBy_nil).discard.bind
      fun _ => h.generics.discard.bind fun _ => h.structRest.bind fun _ => carries_pure true
  · exact (carries_word closedBy_nil _).bind fun _ => (carries_name closedBy_nil).discard.bind
      fun _ => h.generics.discard.bind fun _ => h.whereClause.discard.bind fun _ =>
        h.namedFields.bind fun _ => carries_pure true
  · refine (carries_word closedBy_nil _).bind fun _ => (carries_name closedBy_nil).discard.bind
      fun _ => (carries_sees_nil _).bind fun _ => ?_
    extract_lets last
    have hlast (u : Unit) : Carries [] (last u) (last u) := (carries_sees_nil _).bind fun _ =>
      (carries_require id).bind fun _ => carries_anyGroup.discard.bind fun _ => carries_pure false
    exact .branch (carries_anyGroup.discard.bind hlast) (hlast ())
  · exact (macroCall true).bind fun _ => carries_pure true

theorem anyItem : Carries [] g.anyItem g'.anyItem := by
  refine .printing _ <| .get_nil fun start => (h.outerAttrs closedBy_nil).captured.bind fun x => ?_
  obtain ⟨attrs, attrsFragment⟩ := x
  refine carries_visibility.captured.bind fun x => ?_
  obtain ⟨vis, visFragment⟩ := x
  refine .ahead_nil fun ts => ?_
  extract_lets second source
  have hsource : Carries [] (source >>= fun f => pure (Item.other f))
      (source >>= fun f => pure (Item.other f)) :=
    .bind (.ahead_nil fun _ => carries_pure _) fun _ => carries_pure _
  refine .branch ?_ (.branch ?_ (.branch ?_ (.branch (h.moduleAfter attrs vis) ?_)))
  · exact (h.enumAfter attrs vis).bind fun _ => carries_pure _
  · refine (h.useAfter attrs vis).bind fun u => ?_
    cases u with
    | some u => exact carries_pure _
    | none => exact hsource
  · exact (externCrateAfter attrs vis).bind fun _ => carries_pure _
  · have hrel := h.opaqueItem? vis ts
    generalize g.opaqueItem? vis ts = r? at hrel ⊢
    generalize g'.opaqueItem? vis ts = r?' at hrel ⊢
    cases hrel with
    | none => exact carries_failure _
    | some hr => exact hr.captured.bind fun x => .branch (carries_pure _) hsource

/-! ## 9. Statements -/

theorem localDecl : Carries [] g.localDecl g'.localDecl := by
  refine (carries_word closedBy_nil _).bind fun _ => (h.pattern closedBy_nil).discard.bind fun _ =>
    (carries_op? closedBy_nil rfl).bind fun _ => ?_
  extract_lets last rest rest'
  have hlast (u : Unit) : Carries [] (last u) (last u) := carries_op ";"
  have hrest (u : Unit) : Carries [] (rest u) (rest' u) := by
    refine (carries_op? closedBy_nil rfl).bind fun _ => .branch ?_ (hlast ())
    exact (h.value closedBy_nil).captured.bind fun x => (carries_emit _).bind fun _ =>
      (carries_word? closedBy_nil _).bind fun _ => .branch (h.block.bind hlast) (hlast ())
  exact .branch ((h.type closedBy_nil true).discard.bind hrest) (hrest ())

/-- An item is read again from the start of the statement, so the end of what is read is measured
from there. -/
theorem statement : Carries [] g.statement g'.statement := by
  intro c a d hread
  obtain ⟨_, _, hget, hread⟩ := of_bind hread
  cases hget
  obtain ⟨attrs, e, hattrs, hread⟩ := of_bind hread
  obtain ⟨hshort, hattrs'⟩ := h.outerAttrs closedBy_nil c attrs e hattrs
  rw [Cursor.before_nil, Cursor.before_nil] at hattrs'
  rw [Cursor.before_nil, Cursor.before_nil]
  -- What comes after the attributes leaves a part of what they leave.
  have hgoal {r r' : Reader Bool} (hr : Carries [] r r') (hread : r e = some (a, d)) :
      d.rest <:+ c.rest ∧ r' e = some (a, d) := by
    obtain ⟨hshort', hread'⟩ := hr e a d hread
    rw [Cursor.before_nil, Cursor.before_nil] at hread'
    exact ⟨hshort'.trans hshort, hread'⟩
  change _ ∧ (g'.outerAttrs >>= fun _ => _) c = _
  rw [bind_apply, hattrs', Option.bind_some]
  rw [ahead_bind] at hread ⊢
  by_cases hbraces : (macroStart e.rest == .braces) = true
  · simp only [hbraces, if_true] at hread ⊢
    refine hgoal ((carries_readPlain closedBy_nil).discard.bind fun _ => (carries_op "!").bind
      fun _ => ?_) hread
    exact carries_anyGroup.discard.bind fun _ => (carries_op? closedBy_nil rfl).discard.bind fun _ =>
      carries_pure true
  · simp only [hbraces, Bool.false_eq_true, if_false] at hread ⊢
    by_cases hlet : atWord "let" e.rest = true
    · simp only [hlet, if_true] at hread ⊢
      exact hgoal (h.localDecl.bind fun _ => carries_pure true) hread
    · simp only [hlet, Bool.false_eq_true, if_false] at hread ⊢
      by_cases hitem : (macroStart e.rest == .item || atItem e.rest) = true
      · simp only [hitem, if_true] at hread ⊢
        have hagain := (h.item.discard.bind fun _ => carries_pure true) c a d hread
        rwa [Cursor.before_nil, Cursor.before_nil] at hagain
      · simp only [hitem, Bool.false_eq_true, if_false] at hread ⊢
        refine hgoal (h.early.bind fun shape => ?_) hread
        exact (carries_op? closedBy_nil rfl).bind fun _ => carries_pure _

theorem allStatements : Carries [] g.allStatements g'.allStatements := by
  refine .repeatWhile <| (Carries.repeatWhile (carries_op? closedBy_nil rfl)).bind fun _ =>
    carries_atEnd.bind fun _ => .branch (carries_pure false) ?_
  exact h.statement.bind fun _ => carries_atEnd.bind fun _ => .branch (carries_pure false) <|
    (carries_require id).bind fun _ => carries_pure true

/-! ## 10. Depth -/

theorem rules : (Grammar.rules g).Below (Grammar.rules g') where
  tied := .inr ⟨g, rfl⟩
  tied' := .inr ⟨g', rfl⟩
  type ht := h.anyType ht
  bound ht := h.anyBound ht
  pattern ht := h.anyPattern ht
  expr ht := h.anyExpr ht
  unary ht := h.anyUnary ht
  operators ht := h.anyOperators ht
  operand ht := h.moreRightSide ht
  early := h.earlyExpr
  statements := h.allStatements
  useTree := h.anyUseTree
  item := h.anyItem

end Below

theorem nothing_below {g : Grammar} (h : g.IsTied) : nothing.Below g where
  tied := .inl rfl
  tied' := h
  type _ _ := carries_failure _
  bound _ _ _ := carries_failure _
  pattern _ := carries_failure _
  expr _ _ := carries_failure _
  unary _ _ := carries_failure _
  operators _ _ _ _ := carries_failure _
  operand _ _ _ _ := carries_failure _
  early := carries_failure _
  statements := carries_failure _
  useTree _ := carries_failure _
  item := carries_failure _

/-- What a grammar reads, every deeper one reads, and it reads it before a comma too. -/
theorem below_ofDepth {n m : Nat} (h : n ≤ m) : (ofDepth n).Below (ofDepth m) := by
  induction n generalizing m with
  | zero =>
    refine nothing_below ?_
    cases m with
    | zero => exact .inl rfl
    | succ m => exact .inr ⟨ofDepth m, rfl⟩
  | succ n ih =>
    cases m with
    | zero => exact absurd h (Nat.not_succ_le_zero n)
    | succ m => exact (ih (Nat.le_of_succ_le_succ h)).rules

end Grammar

end Syntax

end EnumCatalog
