import EnumCatalog.Proofs.Reading

/-!
# What is read in front of more tokens

A reader `r'` *carries* a reader `r` over a tail if it reads everything that `r` reads, also with
the tail behind it, and leaves the tail as it is. With an empty tail this says that `r'` reads at least
what `r` does, as a deeper grammar does. With a tail that opens with a comma it says that what is
read alone is read as an item of a list: a rule that looks ahead finds nothing at a comma that it
would not find at the end (`Overlooks`).

Terminals carry themselves, and every combinator has a lemma, so a rule of the grammar is followed
along its text. Brackets are tokens, so nothing is behind what stands in them, and a reader within
brackets is carried over the empty tail whatever follows the brackets.
-/

set_option autoImplicit false

namespace EnumCatalog.Syntax

/-! ## 1. Tests that overlook what is behind -/

/-- The test answers the same with the tail behind the tokens. -/
abbrev Overlooks (tail : List Token) (p : List Token → Bool) : Prop := ∀ ts, p (ts ++ tail) = p ts

section

variable {tail : List Token} {p q : List Token → Bool}

theorem overlooks_const (b : Bool) : Overlooks tail fun _ => b := fun _ => rfl

theorem overlooks_nil (p : List Token → Bool) : Overlooks [] p := by
  intro ts
  rw [List.append_nil]

theorem Overlooks.and (hp : Overlooks tail p) (hq : Overlooks tail q) :
    Overlooks tail fun ts => p ts && q ts := by
  intro ts
  simp only [hp ts, hq ts]

theorem Overlooks.or (hp : Overlooks tail p) (hq : Overlooks tail q) :
    Overlooks tail fun ts => p ts || q ts := by
  intro ts
  simp only [hp ts, hq ts]

theorem Overlooks.not (hp : Overlooks tail p) : Overlooks tail fun ts => !p ts := by
  intro ts
  simp only [hp ts]

/-- A test of what follows a first token, which there has to be. -/
theorem Overlooks.and_tail (hp : Overlooks tail p) (hnil : p [] = false) (hq : Overlooks tail q) :
    Overlooks tail fun ts => p ts && q ts.tail := by
  intro ts
  cases ts with
  | nil => simp only [hp [], hnil, Bool.false_and]
  | cons t ts =>
    show (p (t :: ts ++ tail) && q (ts ++ tail)) = (p (t :: ts) && q ts)
    rw [hp, hq]

end

/-! ## 2. Looking ahead at a comma -/

/-- At the end nothing is behind. -/
theorem closedBy_nil : ClosedBy [','] [] := trivial

theorem atChars_cons_cons (c c' d : Char) (cs : List Char) (ts : List Token) :
    atChars (c :: c' :: cs) (.punct d true :: ts) = (c == d && atChars (c' :: cs) ts) := rfl

/-- An operator that is ahead is over before what is behind. -/
theorem atChars_append_of_at {cs : List Char} {ts : List Token} (h : atChars cs ts = true)
    (tail : List Token) : cs.length ≤ ts.length ∧ atChars cs (ts ++ tail) = true := by
  induction cs generalizing ts with
  | nil => exact ⟨Nat.zero_le _, by cases ts ++ tail <;> rfl⟩
  | cons c cs ih =>
    cases cs with
    | nil =>
      match ts, h with
      | .punct d j :: ts, h => exact ⟨Nat.le_add_left _ _, h⟩
    | cons c' cs =>
      match ts, h with
      | .punct d true :: ts, h =>
        rw [atChars_cons_cons, Bool.and_eq_true] at h
        obtain ⟨hlength, hat⟩ := ih h.2
        refine ⟨Nat.succ_le_succ hlength, ?_⟩
        rw [List.cons_append, atChars_cons_cons, h.1, hat]
        rfl

namespace ClosedBy

variable {tail : List Token} (ht : ClosedBy [','] tail)

include ht

theorem overlooks_atChars {cs : List Char} (hcs : ',' ∉ cs) : Overlooks tail (atChars cs) := by
  -- What follows is empty or starts with a comma, and no character of the operator is one.
  have hnil {c : Char} {cs : List Char} (hc : c ≠ ',') : atChars (c :: cs) tail = false := by
    match tail, ht with
    | [], _ => cases cs <;> rfl
    | .punct d j :: tail, ht =>
      rw [List.mem_singleton.mp ht]
      exact atChars_of_ne hc cs j tail
  induction cs with
  | nil =>
    intro ts
    cases ts <;> rfl
  | cons c cs ih =>
    rw [List.mem_cons, not_or] at hcs
    intro ts
    cases ts with
    | nil =>
      rw [List.nil_append, hnil (Ne.symm hcs.1)]
      cases cs <;> rfl
    | cons t ts =>
      cases cs with
      | nil => cases t <;> rfl
      | cons c' cs =>
        cases t with
        | punct d j =>
          cases j with
          | true => rw [List.cons_append, atChars_cons_cons, atChars_cons_cons, ih hcs.2]
          | false => rfl
        | _ => rfl

theorem overlooks_atOp {s : String} (hs : s.toList.contains ',' = false) :
    Overlooks tail (atOp s) := ht.overlooks_atChars (by simpa using hs)

/-- What is looked for in the first token alone is not found at a comma. -/
theorem overlooks_head {p : List Token → Bool} (hcons : ∀ t ts ts', p (t :: ts) = p (t :: ts'))
    (hcomma : ∀ j ts, p (.punct ',' j :: ts) = p []) : Overlooks tail p := by
  intro ts
  cases ts with
  | nil =>
    match tail, ht with
    | [], _ => rfl
    | .punct d j :: tail, ht =>
      rw [List.mem_singleton.mp ht]
      exact hcomma j tail
  | cons t ts => exact hcons t _ _

/-- What tells that there is no more is told by a comma as it is by the end. -/
theorem overlooks_end {p : List Token → Bool} (hnil : p [] = true)
    (hcomma : ∀ j ts, p (.punct ',' j :: ts) = true)
    (hcons : ∀ t ts, p (t :: ts ++ tail) = p (t :: ts)) : Overlooks tail p := by
  intro ts
  cases ts with
  | nil =>
    match tail, ht with
    | [], _ => rfl
    | .punct d j :: tail, ht =>
      rw [List.mem_singleton.mp ht, hnil]
      exact hcomma j tail
  | cons t ts => exact hcons t ts

omit ht in
theorem atOp_comma_append (t : Token) (ts tail : List Token) :
    atOp "," (t :: ts ++ tail) = atOp "," (t :: ts) := by
  cases t <;> rfl

theorem overlooks_atWord (w : String) : Overlooks tail (atWord w) :=
  ht.overlooks_head (fun t _ _ => by cases t <;> rfl) fun _ _ => rfl

theorem overlooks_atWordIn (ws : List String) : Overlooks tail (atWordIn ws) := by
  intro ts
  simp only [atWordIn, ht.overlooks_atWord _ ts]

theorem overlooks_atName : Overlooks tail atName :=
  ht.overlooks_head (fun t _ _ => by cases t <;> rfl) fun _ _ => rfl

theorem overlooks_atIdent : Overlooks tail atIdent :=
  ht.overlooks_head (fun t _ _ => by cases t <;> rfl) fun _ _ => rfl

theorem overlooks_atLifetime : Overlooks tail atLifetime :=
  ht.overlooks_head (fun t _ _ => by cases t <;> rfl) fun _ _ => rfl

theorem overlooks_atGroup (d : Delimiter) : Overlooks tail (atGroup d) :=
  ht.overlooks_head (fun t _ _ => by cases t <;> rfl) fun _ _ => rfl

theorem overlooks_atAnyGroup : Overlooks tail atAnyGroup :=
  ht.overlooks_head (fun t _ _ => by cases t <;> rfl) fun _ _ => rfl

theorem overlooks_atLiteralOf (k : Literal.Kind) : Overlooks tail (atLiteralOf k) :=
  ht.overlooks_head (fun t _ _ => by cases t <;> rfl) fun _ _ => rfl

theorem overlooks_atPathWord : Overlooks tail atPathWord :=
  ht.overlooks_atName.or (ht.overlooks_atWordIn _)

/-- A minus sign alone is no literal, and neither is one before a comma. -/
theorem overlooks_atLiteral : Overlooks tail atLiteral := by
  intro ts
  -- Only for a minus sign the next token counts, and a comma is no number.
  match ts with
  | [] =>
    match tail, ht with
    | [], _ => rfl
    | .punct d j :: tail, ht =>
      rw [List.mem_singleton.mp ht]
      cases tail <;> rfl
  | [.punct c j] =>
    match tail, ht with
    | [], _ => rfl
    | .punct d j' :: tail, ht =>
      rw [List.singleton_append]
      by_cases hc : c = '-'
      · subst hc
        rfl
      · simp [atLiteral]
  | .punct c j :: t :: ts =>
    by_cases hc : c = '-'
    · subst hc
      cases t <;> rfl
    · simp [atLiteral, hc]
  | .ident i :: ts => rfl
  | .lifetime i :: ts => rfl
  | .literal text :: ts => rfl
  | .group d inner :: ts => rfl

/-- A test of what follows double colons, which there have to be. -/
theorem overlooks_colons_and {p : List Token → Bool} (hp : Overlooks tail p) :
    Overlooks tail fun ts => atOp "::" ts && p (ts.drop 2) := by
  intro ts
  by_cases hat : atOp "::" ts = true
  · have hlength : 2 ≤ ts.length := (atChars_append_of_at hat tail).1
    show (atOp "::" (ts ++ tail) && p ((ts ++ tail).drop 2)) = _
    rw [(ht.overlooks_atOp rfl), List.drop_append_of_le_length hlength, hp]
  · show (atOp "::" (ts ++ tail) && p ((ts ++ tail).drop 2)) = (atOp "::" ts && p (ts.drop 2))
    rw [(ht.overlooks_atOp rfl), eq_false_of_ne_true hat, Bool.false_and, Bool.false_and]

end ClosedBy

/-! ## 3. Readers and what is behind -/

/-- The same place with more tokens behind those ahead. -/
def Cursor.before (c : Cursor) (tail : List Token) : Cursor := { c with rest := c.rest ++ tail }

@[simp] theorem Cursor.before_nil (c : Cursor) : c.before [] = c := by
  rw [Cursor.before, List.append_nil]

namespace Reader

/-- What `r` reads at the front of some tokens, `r'` reads where the tail is behind them, and neither
reads further than the tokens go. -/
def Carries {α : Type} (tail : List Token) (r r' : Reader α) : Prop :=
  ∀ c a d, r c = some (a, d) → d.rest <:+ c.rest ∧ r' (c.before tail) = some (a, d.before tail)

section

variable {α β : Type} {tail : List Token} {r r' : Reader α} {a : α}

theorem carries_pure (a : α) : Carries tail (pure a) (pure a) := by
  intro c b d h
  cases h
  exact ⟨List.suffix_rfl, rfl⟩

theorem carries_failure (r' : Reader α) : Carries tail failure r' := by
  intro c a d h
  cases h

theorem Carries.bind {k k' : α → Reader β} (hr : Carries tail r r')
    (hk : ∀ a, Carries tail (k a) (k' a)) : Carries tail (r >>= k) (r' >>= k') := by
  intro c b e h
  rw [bind_apply] at h
  obtain ⟨⟨a, d⟩, hd, he⟩ := Option.bind_eq_some_iff.mp h
  obtain ⟨hshort, hread⟩ := hr c a d hd
  obtain ⟨hshort', hread'⟩ := hk a d b e he
  refine ⟨hshort'.trans hshort, ?_⟩
  rw [bind_apply, hread, Option.bind_some, hread']

theorem Carries.map (φ : α → β) (hr : Carries tail r r') : Carries tail (φ <$> r) (φ <$> r') := by
  rw [map_eq_pure_bind, map_eq_pure_bind]
  exact hr.bind fun a => carries_pure (φ a)

theorem Carries.discard (hr : Carries tail r r') :
    Carries tail (Functor.discard r) (Functor.discard r') := hr.map _

theorem Carries.branch {p : Prop} [Decidable p] {s s' : Reader α} (hr : Carries tail r r')
    (hs : Carries tail s s') : Carries tail (if p then r else s) (if p then r' else s') := by
  split
  · exact hr
  · exact hs

theorem Carries.test {p : List Token → Bool} (hp : Overlooks tail p) {s s' : Reader α}
    {ts : List Token} (hr : Carries tail r r') (hs : Carries tail s s') :
    Carries tail (if p ts then r else s) (if p (ts ++ tail) then r' else s') := by
  rw [hp]
  exact .branch hr hs

/-- What is done with the place where a reader stands. -/
theorem Carries.get {k k' : Cursor → Reader β}
    (hk : ∀ c, Carries tail (k c) (k' (c.before tail))) :
    Carries tail (get >>= k) (get >>= k') := fun c => hk c c

/-- What is done with the tokens ahead. -/
theorem Carries.ahead {k k' : List Token → Reader β}
    (hk : ∀ ts, Carries tail (k ts) (k' (ts ++ tail))) :
    Carries tail (Reader.ahead >>= k) (Reader.ahead >>= k') := fun c => hk c.rest c

theorem carries_sees {test : List Token → Bool} (h : Overlooks tail test) :
    Carries tail (sees test) (sees test) := by
  refine .ahead fun ts => ?_
  rw [h]
  exact carries_pure _

theorem carries_require {x y : Bool} (h : x = true → y = true) :
    Carries tail (require x) (require y) := by
  cases x with
  | true =>
    rw [h rfl]
    exact carries_pure ()
  | false => exact carries_failure _

theorem carries_require_ahead {p : List Token → Bool} (hp : Overlooks tail p) (ts : List Token) :
    Carries tail (require (p ts)) (require (p (ts ++ tail))) := by
  rw [hp]
  exact carries_require id

theorem carries_emit (f : Fragment) : Carries tail (emit f) (emit f) := by
  intro c a d h
  cases h
  exact ⟨List.suffix_rfl, rfl⟩

theorem carries_emitTokens (ts : List Token) : Carries tail (emitTokens ts) (emitTokens ts) :=
  carries_emit _

theorem Carries.captured (hr : Carries tail r r') : Carries tail (captured r) (captured r') := by
  intro c x e h
  unfold Reader.captured at h ⊢
  split at h
  · next a d hread =>
    cases h
    obtain ⟨hshort, hread'⟩ := hr _ _ _ hread
    refine ⟨hshort, ?_⟩
    rw [show r' ⟨(c.before tail).rest, [], []⟩ = some (a, d.before tail) from hread']
    rfl
  · cases h

theorem Carries.silent (hr : Carries tail r r') : Carries tail (silent r) (silent r') :=
  hr.captured.bind fun x => carries_pure x.1

theorem Carries.printing (φ : α → Fragment) (hr : Carries tail r r') :
    Carries tail (printing φ r) (printing φ r') :=
  hr.silent.bind fun a => (carries_emit (φ a)).bind fun _ => carries_pure a

/-- What has been read since an earlier point is the same with the tail behind. -/
theorem carries_restoreSince (earlier : Cursor) :
    Carries tail (restoreSince earlier) (restoreSince (earlier.before tail)) := by
  intro c a d h
  cases h
  refine ⟨List.suffix_rfl, ?_⟩
  have hread : (earlier.rest ++ tail).take ((earlier.rest ++ tail).length -
      (c.rest ++ tail).length) = earlier.rest.take (earlier.rest.length - c.rest.length) := by
    rw [List.length_append, List.length_append, Nat.add_sub_add_right]
    exact List.take_append_of_le_length (Nat.sub_le _ _)
  show some ((), Cursor.mk (c.rest ++ tail) (List.reverse (List.take
    ((earlier.rest ++ tail).length - (c.rest ++ tail).length) (earlier.rest ++ tail)) ++ _) _) = _
  rw [hread]
  rfl

theorem carries_forgetMention (earlier : Cursor) :
    Carries tail (forgetMention earlier) (forgetMention (earlier.before tail)) := by
  intro c a d h
  cases h
  exact ⟨List.suffix_rfl, rfl⟩

/-! ## 4. Terminals -/

theorem carries_next : Carries tail next next := by
  intro c t d h
  obtain ⟨rest, printed, mentioned⟩ := c
  cases rest with
  | nil => cases h
  | cons t rest =>
    cases h
    exact ⟨List.suffix_cons t rest, rfl⟩

end

section

variable {α : Type} {tail : List Token}

/-- An operator that is read is over before the tail. -/
theorem carries_op (s : String) : Carries tail (op s) (op s) := by
  intro c a d h
  obtain ⟨ts, printed, mentioned⟩ := c
  by_cases hat : atOp s ts = true
  · obtain ⟨hlength, hat'⟩ := atChars_append_of_at hat tail
    rw [reads_op hat rfl] at h
    cases h
    refine ⟨List.drop_suffix _ _, ?_⟩
    exact reads_op hat' (List.drop_append_of_le_length hlength) printed mentioned
  · have hfails : Fails (op s) ts :=
      (reads_ahead ts).fails ((fails_require (eq_false_of_ne_true hat) ts).bind _)
    rw [hfails] at h
    cases h

theorem carries_op? {s : String} (ht : ClosedBy [','] tail) (hs : s.toList.contains ',' = false) :
    Carries tail (op? s) (op? s) :=
  (carries_sees (ht.overlooks_atOp hs)).bind fun _ =>
    .branch ((carries_op s).bind fun _ => carries_pure true) (carries_pure false)

variable (ht : ClosedBy [','] tail)

include ht

theorem carries_word (w : String) : Carries tail (word w) (word w) :=
  .ahead fun ts => (carries_require_ahead (ht.overlooks_atWord w) ts).bind fun _ =>
    carries_next.bind fun t => carries_emitTokens [t]

theorem carries_word? (w : String) : Carries tail (word? w) (word? w) :=
  (carries_sees (ht.overlooks_atWord w)).bind fun _ =>
    .branch ((carries_word ht w).bind fun _ => carries_pure true) (carries_pure false)

omit ht in
theorem carries_anyIdent : Carries tail anyIdent anyIdent := by
  refine carries_next.bind fun t => ?_
  cases t with
  | ident i => exact (carries_emitTokens _).bind fun _ => carries_pure i
  | _ => exact carries_failure _

theorem carries_name : Carries tail name name :=
  .ahead fun ts => (carries_require_ahead ht.overlooks_atName ts).bind fun _ => carries_anyIdent

theorem carries_lifetime : Carries tail lifetime lifetime :=
  .ahead fun ts => (carries_require_ahead ht.overlooks_atLifetime ts).bind fun _ =>
    carries_next.bind fun t => carries_emitTokens [t]

theorem carries_lifetime? : Carries tail lifetime? lifetime? :=
  (carries_sees ht.overlooks_atLifetime).bind fun _ =>
    .branch ((carries_lifetime ht).bind fun _ => carries_pure true) (carries_pure false)

theorem carries_literal : Carries tail literal literal := by
  refine .ahead fun ts => (carries_require_ahead ht.overlooks_atLiteral ts).bind fun _ =>
    carries_next.bind fun t => ?_
  cases t with
  | punct c j =>
    refine carries_next.bind fun t => ?_
    cases t with
    | literal text => exact carries_emitTokens _
    | _ => exact carries_failure _
  | _ => exact carries_emitTokens _

omit ht in
theorem carries_anyGroup : Carries tail anyGroup anyGroup := by
  refine carries_next.bind fun t => ?_
  cases t with
  | group d inner => exact (carries_emitTokens _).bind fun _ => carries_pure (d, inner)
  | _ => exact carries_failure _

end

theorem Carries.inGroup {α : Type} {tail : List Token} {r r' : Reader α} (d : Delimiter)
    (hr : Carries [] r r') : Carries tail (inGroup d r) (inGroup d r') := by
  refine carries_next.bind fun t => ?_
  cases t with
  | group d' inner =>
    refine (carries_require id).bind fun _ => ?_
    cases hread : r (start inner) with
    | some x =>
      obtain ⟨a, d⟩ := x
      have hread' := (hr _ _ _ hread).2
      rw [Cursor.before_nil, Cursor.before_nil] at hread'
      simp only [StateT.run, hread, hread']
      exact (carries_require id).bind fun _ => (carries_emit _).bind fun _ => carries_pure a
    | none =>
      simp only [StateT.run, hread]
      exact carries_failure _
  | _ => exact carries_failure _

/-! ## 5. Repetition

With a tail behind them there are more tokens ahead, so more rounds are granted; those that were
enough without it are enough with it. -/

section

variable {α σ : Type} {tail : List Token}

theorem Carries.collectRounds {r r' : Reader (Option α)} (hr : Carries tail r r') {n m : Nat}
    (h : n ≤ m) : Carries tail (collect.rounds r n) (collect.rounds r' m) := by
  induction n generalizing m with
  | zero => exact carries_failure _
  | succ n ih =>
    cases m with
    | zero => exact absurd h (Nat.not_succ_le_zero n)
    | succ m =>
      refine Carries.bind hr fun x => ?_
      cases x with
      | some a => exact (ih (Nat.le_of_succ_le_succ h)).bind fun as => carries_pure (a :: as)
      | none => exact carries_pure []

theorem Carries.collect {r r' : Reader (Option α)} (hr : Carries tail r r') :
    Carries tail (collect r) (collect r') :=
  .ahead fun _ => hr.collectRounds (Nat.succ_le_succ (List.prefix_append _ _).length_le)

theorem Carries.iterateRounds {r r' : σ → Reader (Option σ)}
    (hr : ∀ s, Carries tail (r s) (r' s)) (s : σ) {n m : Nat} (h : n ≤ m) :
    Carries tail (iterate.rounds r s n) (iterate.rounds r' s m) := by
  induction n generalizing s m with
  | zero => exact carries_failure _
  | succ n ih =>
    cases m with
    | zero => exact absurd h (Nat.not_succ_le_zero n)
    | succ m =>
      refine Carries.bind (hr s) fun x => ?_
      cases x with
      | some s' => exact ih s' (Nat.le_of_succ_le_succ h)
      | none => exact carries_pure ()

theorem Carries.iterate {r r' : σ → Reader (Option σ)} (hr : ∀ s, Carries tail (r s) (r' s))
    (s : σ) : Carries tail (iterate s r) (iterate s r') :=
  .ahead fun _ => .iterateRounds hr s (Nat.succ_le_succ (List.prefix_append _ _).length_le)

theorem Carries.repeatWhile {r r' : Reader Bool} (hr : Carries tail r r') :
    Carries tail (repeatWhile r) (repeatWhile r') :=
  .iterate (fun _ => hr.bind fun _ => .branch (carries_pure _) (carries_pure _)) ()

end

theorem Carries.forIn {tail : List Token} {σ : Type} {f f' : σ → Reader Unit}
    (hf : ∀ x, Carries tail (f x) (f' x)) (xs : List σ) :
    Carries tail (forIn xs () fun x _ => f x >>= fun _ => pure (.yield ()))
      (forIn xs () fun x _ => f' x >>= fun _ => pure (.yield ())) := by
  induction xs with
  | nil => exact carries_pure ()
  | cons x xs ih =>
    rw [List.forIn_cons, List.forIn_cons, bind_assoc, bind_assoc]
    exact (hf x).bind fun _ => ih

/-- A round that is over at certain tokens. The end may be no such place although the tail is one, if
the round fails there. -/
theorem Carries.unless {tail : List Token} {stops : List Token → Bool} {r r' : Reader Bool}
    (hcons : ∀ t ts, stops (t :: ts ++ tail) = stops (t :: ts))
    (hnil : stops [] = true → stops tail = true) (hr : Carries tail r r') (hfails : Fails r []) :
    Carries tail (sees stops >>= fun b => if b then pure false else r)
      (sees stops >>= fun b => if b then pure false else r') := by
  intro c a d hread
  obtain ⟨ts, printed, mentioned⟩ := c
  change (if stops ts = true then pure false else r) _ = _ at hread
  change _ ∧ (if stops (ts ++ tail) = true then pure false else r') _ = _
  cases ts with
  | cons t ts =>
    rw [hcons]
    exact Carries.branch (carries_pure false) hr _ _ _ hread
  | nil =>
    split at hread
    · next hstops =>
      rw [List.nil_append, if_pos (hnil hstops)]
      exact carries_pure false _ _ _ hread
    · rw [hfails] at hread
      cases hread

/-! ## 6. Up to the end

What is read up to the end has nothing behind it. -/

section

variable {α : Type} {r r' : Reader α}

theorem carries_sees_nil (test : List Token → Bool) : Carries [] (sees test) (sees test) :=
  carries_sees (overlooks_nil test)

theorem carries_atEnd : Carries [] atEnd atEnd := carries_sees_nil _

theorem carries_op?_nil (s : String) : Carries [] (op? s) (op? s) :=
  (carries_sees_nil _).bind fun _ =>
    .branch ((carries_op s).bind fun _ => carries_pure true) (carries_pure false)

theorem Carries.get_nil {β : Type} {k k' : Cursor → Reader β}
    (hk : ∀ c, Carries [] (k c) (k' c)) :
    Carries [] (MonadState.get >>= k) (MonadState.get >>= k') := by
  refine .get fun c => ?_
  rw [Cursor.before_nil]
  exact hk c

theorem Carries.ahead_nil {β : Type} {k k' : List Token → Reader β}
    (hk : ∀ ts, Carries [] (k ts) (k' ts)) :
    Carries [] (Reader.ahead >>= k) (Reader.ahead >>= k') := by
  refine .ahead fun ts => ?_
  rw [List.append_nil]
  exact hk ts

theorem carries_restoreSince_nil (earlier : Cursor) :
    Carries [] (restoreSince earlier) (restoreSince earlier) := by
  have h : Carries [] _ _ := carries_restoreSince earlier
  rwa [Cursor.before_nil] at h

theorem Carries.untilEnd (hr : Carries [] r r') : Carries [] (untilEnd r) (untilEnd r') :=
  .collect (carries_atEnd.bind fun _ =>
    .branch (carries_pure none) (hr.bind fun a => carries_pure (some a)))

theorem Carries.commaRound (hr : Carries [] r r') : Carries [] (commaRound r) (commaRound r') :=
  carries_atEnd.bind fun _ => .branch (carries_pure none) <| hr.bind fun a =>
    carries_atEnd.bind fun _ => .branch (carries_pure (some (a, false))) <|
      (carries_op ",").bind fun _ => carries_pure (some (a, true))

theorem Carries.commaList (hr : Carries [] r r') : Carries [] (commaList r) (commaList r') :=
  hr.commaRound.collect.bind fun _ => carries_pure _

theorem carries_everything : Carries [] everything everything := by
  intro c a d h
  cases h
  exact ⟨List.nil_suffix, by rw [Cursor.before_nil, Cursor.before_nil]; rfl⟩

end

end Reader

end EnumCatalog.Syntax
