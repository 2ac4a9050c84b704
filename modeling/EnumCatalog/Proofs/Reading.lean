import EnumCatalog.Syntax.Source

/-!
# Reading forward

What a reader does on tokens that are known. `Reads r ts rest a f` says that the reader takes the
tokens from `ts` up to `rest`, answers `a` and writes down the fragment `f`, whatever has been
written down before. Each terminal and each combinator has one rule, so a rule of the grammar is
followed along its steps, and where it branches, the tokens ahead decide.

A repetition is followed round by round (`Collects`): the rounds that are granted are never used up
because each round reads something.
-/

set_option autoImplicit false

namespace EnumCatalog

theorem Token.sizeAll_append (ts ts' : List Token) :
    sizeAll (ts ++ ts') = sizeAll ts + sizeAll ts' := by
  induction ts with
  | nil => simp [sizeAll]
  | cons t ts ih =>
    rw [List.cons_append, sizeAll, ih, sizeAll]
    omega

namespace Syntax

/-! ## 1. Looking at punctuation -/

theorem atChars_of_ne {c d : Char} (h : c ≠ d) (cs : List Char) (j : Bool) (ts : List Token) :
    atChars (c :: cs) (.punct d j :: ts) = false := by
  have hne : (c == d) = false := beq_false_of_ne h
  cases cs with
  | nil => simp [atChars, hne]
  | cons c' cs => cases j <;> simp [atChars, hne]

/-- A comma after the last item of a list, if there is one. -/
def lastComma (comma : Bool) : List Token := if comma then [.punct ',' false] else []

/-- Nothing is ahead, or one of these punctuation characters. -/
def ClosedBy (closers : List Char) : List Token → Prop
  | [] => True
  | .punct c _ :: _ => c ∈ closers
  | _ => False

/-- A word or a literal is ahead. -/
def OpensWord : List Token → Prop
  | .ident _ :: _ => True
  | .literal _ :: _ => True
  | _ => False

/-- Whether an operator opens with none of these characters. -/
def opensBeside (closers : List Char) (s : String) : Bool :=
  match s.toList with
  | c :: _ => !closers.contains c
  | [] => false

section

variable {closers : List Char} {ts : List Token} {s : String}

theorem closedBy_punct {c : Char} (h : c ∈ closers) (j : Bool) (ts : List Token) :
    ClosedBy closers (.punct c j :: ts) := h

theorem ClosedBy.mono {more : List Char} (h : ClosedBy closers ts) (hsub : closers ⊆ more) :
    ClosedBy more ts :=
  match ts, h with
  | [], _ => trivial
  | .punct _ _ :: _, h => hsub h

theorem ClosedBy.not_atOp (h : ClosedBy closers ts) (hs : opensBeside closers s = true) :
    atOp s ts = false := by
  unfold opensBeside at hs
  unfold atOp
  split at hs
  · next c cs heq =>
    rw [heq]
    match ts, h with
    | [], _ => cases cs <;> rfl
    | .punct d j :: ts, h =>
      refine atChars_of_ne ?_ cs j ts
      rintro rfl
      simp [show c ∈ closers from h] at hs
  · cases hs

theorem ClosedBy.not_atWord (h : ClosedBy closers ts) (w : String) : atWord w ts = false :=
  match ts, h with
  | [], _ => rfl
  | .punct _ _ :: _, _ => rfl

theorem ClosedBy.not_atGroup (h : ClosedBy closers ts) (d : Delimiter) : atGroup d ts = false :=
  match ts, h with
  | [], _ => rfl
  | .punct _ _ :: _, _ => rfl

theorem ClosedBy.not_atAnyGroup (h : ClosedBy closers ts) : atAnyGroup ts = false :=
  match ts, h with
  | [], _ => rfl
  | .punct _ _ :: _, _ => rfl

theorem OpensWord.not_atOp (h : OpensWord ts) (hs : opensBeside [] s = true) :
    atOp s ts = false := by
  unfold opensBeside at hs
  unfold atOp
  split at hs
  · next c cs heq =>
    rw [heq]
    match ts, h with
    | .ident i :: ts, _ => cases cs <;> rfl
    | .literal text :: ts, _ => cases cs <;> rfl
  · cases hs

end

namespace Reader

variable {α β : Type} {r : Reader α} {k : α → Reader β} {ts mid rest : List Token} {a : α} {b : β}
  {f g : Fragment}

/-! ## 2. Single steps -/

/-- The reader reads the tokens up to `rest`, answers `a` and writes down `f`. -/
def Reads (r : Reader α) (ts rest : List Token) (a : α) (f : Fragment) : Prop :=
  ∀ printed mentioned, r ⟨ts, printed, mentioned⟩ =
    some (a, ⟨rest, f.tokens.reverse ++ printed, f.mentions.reverse ++ mentioned⟩)

theorem bind_apply (r : Reader α) (k : α → Reader β) (c : Cursor) :
    (r >>= k) c = (r c).bind fun x => k x.1 x.2 := rfl

theorem reads_pure (a : α) (ts : List Token) : Reads (pure a) ts ts a .empty :=
  fun _ _ => rfl

theorem Reads.bind (hr : Reads r ts mid a f) (hk : Reads (k a) mid rest b g) :
    Reads (r >>= k) ts rest b (f ++ g) := by
  intro printed mentioned
  rw [bind_apply, hr, Option.bind_some, hk]
  simp

/-- A step that writes nothing down. -/
theorem Reads.andThen (hr : Reads r ts mid a .empty) (hk : Reads (k a) mid rest b f) :
    Reads (r >>= k) ts rest b f := hr.bind hk

/-- A step after which nothing is written down. -/
theorem Reads.before (hr : Reads r ts mid a f) (hk : Reads (k a) mid rest b .empty) :
    Reads (r >>= k) ts rest b f := f.append_empty ▸ hr.bind hk

theorem Reads.map {φ : α → β} (hr : Reads r ts rest a f) : Reads (φ <$> r) ts rest (φ a) f := by
  rw [map_eq_pure_bind]
  exact hr.before (reads_pure (φ a) rest)

theorem Reads.discard (hr : Reads r ts rest a f) : Reads (Functor.discard r) ts rest () f := hr.map

theorem reads_ahead (ts : List Token) : Reads ahead ts ts ts .empty := fun _ _ => rfl

theorem reads_sees (test : List Token → Bool) (ts : List Token) :
    Reads (sees test) ts ts (test ts) .empty := fun _ _ => rfl

/-- What is done with the place where the reader stands. -/
theorem reads_get {k : Cursor → Reader β}
    (hk : ∀ printed mentioned, Reads (k ⟨ts, printed, mentioned⟩) ts rest b f) :
    Reads (get >>= k) ts rest b f :=
  fun printed mentioned => hk printed mentioned printed mentioned

theorem reads_require {x : Bool} (h : x = true) (ts : List Token) :
    Reads (require x) ts ts () .empty := by
  subst h
  exact reads_pure () ts

theorem reads_emit (f : Fragment) (ts : List Token) : Reads (emit f) ts ts () f := fun _ _ => rfl

theorem reads_emitTokens (out ts : List Token) :
    Reads (emitTokens out) ts ts () (.plain out) := fun _ _ => rfl

theorem reads_next (t : Token) (ts : List Token) : Reads next (t :: ts) ts t .empty :=
  fun _ _ => rfl

theorem Reads.captured (hr : Reads r ts rest a f) :
    Reads (Reader.captured r) ts rest (a, f) .empty := by
  intro printed mentioned
  unfold Reader.captured
  rw [hr]
  simp [written, Fragment.empty]

theorem Reads.silent (hr : Reads r ts rest a f) : Reads (Reader.silent r) ts rest a .empty :=
  hr.captured.andThen (reads_pure a rest)

theorem Reads.printing {φ : α → Fragment} (hr : Reads r ts rest a f) :
    Reads (Reader.printing φ r) ts rest a (φ a) :=
  hr.silent.andThen ((reads_emit (φ a) rest).before (reads_pure a rest))

/-! ## 3. Terminals -/

theorem reads_op {s : String} (h : atOp s ts = true) (hrest : ts.drop s.length = rest) :
    Reads (op s) ts rest () (.plain (Token.operator s.toList)) := by
  intro printed mentioned
  subst hrest
  show (ahead >>= fun __do_lift => _) _ = _
  rw [bind_apply]
  show ((require (atOp s ts)) >>= _) _ = _
  rw [h]
  rfl

theorem reads_op?_of_at {s : String} (h : atOp s ts = true) (hrest : ts.drop s.length = rest) :
    Reads (op? s) ts rest true (.plain (Token.operator s.toList)) := by
  refine (reads_sees (atOp s) ts).andThen ?_
  rw [h]
  exact (reads_op h hrest).before (reads_pure true rest)

theorem reads_op?_of_not {s : String} (h : atOp s ts = false) :
    Reads (op? s) ts ts false .empty := by
  refine (reads_sees (atOp s) ts).andThen ?_
  rw [h]
  exact reads_pure false ts

theorem reads_word {w : String} {i : Ident} (h : i.isWord w = true) (ts : List Token) :
    Reads (word w) (.ident i :: ts) ts () (.plain [.ident i]) :=
  (reads_ahead _).andThen ((reads_require h _).andThen
    ((reads_next _ _).andThen (reads_emitTokens _ _)))

theorem reads_word?_of_at {w : String} {i : Ident} (h : i.isWord w = true) (ts : List Token) :
    Reads (word? w) (.ident i :: ts) ts true (.plain [.ident i]) := by
  refine (reads_sees (atWord w) _).andThen ?_
  rw [show atWord w (.ident i :: ts) = true from h]
  exact (reads_word h ts).before (reads_pure true ts)

theorem reads_word?_of_not {w : String} (h : atWord w ts = false) :
    Reads (word? w) ts ts false .empty := by
  refine (reads_sees (atWord w) ts).andThen ?_
  rw [h]
  exact reads_pure false ts

theorem reads_anyIdent (i : Ident) (ts : List Token) :
    Reads anyIdent (.ident i :: ts) ts i (.plain [.ident i]) :=
  (reads_next _ _).andThen ((reads_emitTokens _ _).before (reads_pure i ts))

theorem reads_name {i : Ident} (h : i.isName = true) (ts : List Token) :
    Reads name (.ident i :: ts) ts i (.plain [.ident i]) :=
  (reads_ahead _).andThen ((reads_require h _).andThen (reads_anyIdent i ts))

theorem reads_lifetime (i : Ident) (ts : List Token) :
    Reads lifetime (.lifetime i :: ts) ts () (.plain [.lifetime i]) :=
  (reads_ahead _).andThen ((reads_require rfl _).andThen
    ((reads_next _ _).andThen (reads_emitTokens _ _)))

theorem reads_literal (text : String) (ts : List Token) :
    Reads literal (.literal text :: ts) ts () (.plain [.literal text]) :=
  (reads_ahead _).andThen ((reads_require rfl _).andThen
    ((reads_next _ _).andThen (reads_emitTokens _ _)))

theorem reads_anyGroup (d : Delimiter) (inner ts : List Token) :
    Reads anyGroup (.group d inner :: ts) ts (d, inner) (.plain [.group d inner]) :=
  (reads_next _ _).andThen ((reads_emitTokens _ _).before (reads_pure (d, inner) ts))

theorem Reads.inGroup (d : Delimiter) {inner : List Token} (hr : Reads r inner [] a f)
    (ts : List Token) : Reads (Reader.inGroup d r) (.group d inner :: ts) ts a (f.within d) := by
  refine (reads_next _ _).andThen ?_
  refine (reads_require (by simp) _).andThen ?_
  intro printed mentioned
  have hrun : StateT.run r (start inner) =
      some (a, ⟨[], f.tokens.reverse ++ [], f.mentions.reverse ++ []⟩) := hr [] []
  simp only [hrun]
  show some _ = some _
  simp [written, Fragment.within]

/-- The reader cannot read these tokens. -/
def Fails (r : Reader α) (ts : List Token) : Prop :=
  ∀ printed mentioned, r ⟨ts, printed, mentioned⟩ = none

theorem fails_require {x : Bool} (h : x = false) (ts : List Token) : Fails (require x) ts := by
  subst h
  exact fun _ _ => rfl

theorem Fails.bind (hr : Fails r ts) (k : α → Reader β) : Fails (r >>= k) ts := by
  intro printed mentioned
  rw [bind_apply, hr, Option.bind_none]

theorem Reads.fails (hr : Reads r ts mid a f) (hk : Fails (k a) mid) : Fails (r >>= k) ts := by
  intro printed mentioned
  rw [bind_apply, hr, Option.bind_some, hk]

theorem fails_word {w : String} (h : atWord w ts = false) : Fails (word w) ts :=
  (reads_ahead ts).fails ((fails_require h ts).bind _)

/-- What is read instead of what cannot be read. -/
theorem Fails.orElse {r' : Reader α} (hr : Fails r ts) (hr' : Reads r' ts rest a f) :
    Reads (r <|> r') ts rest a f := by
  intro printed mentioned
  show (r ⟨ts, printed, mentioned⟩ <|> r' ⟨ts, printed, mentioned⟩) = _
  rw [hr, hr']
  rfl

/-- What can be read is not read in another way. -/
theorem Reads.orElse (hr : Reads r ts rest a f) (r' : Reader α) :
    Reads (r <|> r') ts rest a f := by
  intro printed mentioned
  show (r ⟨ts, printed, mentioned⟩ <|> r' ⟨ts, printed, mentioned⟩) = _
  rw [hr]
  rfl

/-- What reads all tokens is what the tokens are read as. -/
theorem Reads.run? (hr : Reads r ts [] a f) : r.run? ts = some a := by
  unfold Reader.run?
  rw [show StateT.run r (start ts) = _ from hr [] []]
  rfl

/-! ## 4. Repetition -/

/-- A reader that is repeated finds these things one after the other and then nothing more. -/
inductive Collects (r : Reader (Option α)) : List Token → List Token → List α → Fragment → Prop
  | stop {ts rest : List Token} {f : Fragment} (h : Reads r ts rest none f) :
    Collects r ts rest [] f
  | round {ts mid rest : List Token} {a : α} {as : List α} {f g : Fragment}
    (h : Reads r ts mid (some a) f) (hlt : mid.length < ts.length)
    (hs : Collects r mid rest as g) : Collects r ts rest (a :: as) (f ++ g)

theorem Collects.reads {r : Reader (Option α)} {as : List α} (h : Collects r ts rest as f) :
    Reads (collect r) ts rest as f := by
  refine (reads_ahead ts).andThen ?_
  have hfuel : ts.length < ts.length + 1 := Nat.lt_succ_self _
  generalize ts.length + 1 = n at hfuel
  induction h generalizing n with
  | stop h =>
    cases n with
    | zero => cases hfuel
    | succ n => exact h.before (reads_pure [] _)
  | round h hlt hs ih =>
    cases n with
    | zero => cases hfuel
    | succ n =>
      refine h.bind ?_
      exact (ih n (by omega)).before (reads_pure _ _)

/-- A reader that hands on a state goes from this one through others and then stops. -/
inductive Iterates {σ : Type} (r : σ → Reader (Option σ)) :
    σ → List Token → List Token → Fragment → Prop
  | stop {s : σ} {ts rest : List Token} {f : Fragment} (h : Reads (r s) ts rest none f) :
    Iterates r s ts rest f
  | round {s s' : σ} {ts mid rest : List Token} {f g : Fragment}
    (h : Reads (r s) ts mid (some s') f) (hlt : mid.length < ts.length)
    (hs : Iterates r s' mid rest g) : Iterates r s ts rest (f ++ g)

theorem Iterates.reads {σ : Type} {s : σ} {r : σ → Reader (Option σ)}
    (h : Iterates r s ts rest f) : Reads (iterate s r) ts rest () f := by
  refine (reads_ahead ts).andThen ?_
  have hfuel : ts.length < ts.length + 1 := Nat.lt_succ_self _
  generalize ts.length + 1 = n at hfuel
  induction h generalizing n with
  | stop h =>
    cases n with
    | zero => cases hfuel
    | succ n => exact h.before (reads_pure () _)
  | round h hlt hs ih =>
    cases n with
    | zero => cases hfuel
    | succ n => exact h.bind (ih n (by omega))

/-- A reader that answers whether there may be more says so for a while and then does not. -/
inductive Repeats (r : Reader Bool) : List Token → List Token → Fragment → Prop
  | stop {ts rest : List Token} {f : Fragment} (h : Reads r ts rest false f) : Repeats r ts rest f
  | round {ts mid rest : List Token} {f g : Fragment} (h : Reads r ts mid true f)
    (hlt : mid.length < ts.length) (hs : Repeats r mid rest g) : Repeats r ts rest (f ++ g)

theorem Repeats.reads {r : Reader Bool} (h : Repeats r ts rest f) :
    Reads (repeatWhile r) ts rest () f := by
  refine Iterates.reads ?_
  induction h with
  | stop h => exact .stop (h.before (reads_pure none _))
  | round h hlt hs ih => exact .round (h.before (reads_pure (some ()) _)) hlt ih

/-- A round of a list with commas. -/
def commaRound (r : Reader α) : Reader (Option (α × Bool)) := do
  if ← atEnd then return none
  let a ← r
  if ← atEnd then return some (a, false)
  op ","
  return some (a, true)

/-- Items with commas between them; the flag of an item says whether a comma follows it. -/
inductive CommaList (r : Reader α) : List Token → List (α × Bool) → Fragment → Prop
  | nil : CommaList r [] [] .empty
  | last {item : List Token} {a : α} {f : Fragment} (hne : item ≠ [])
    (h : Reads r item [] a f) : CommaList r item [(a, false)] f
  | more {ts mid : List Token} {j : Bool} {a : α} {as : List (α × Bool)} {f g : Fragment}
    (hlt : mid.length < ts.length) (h : Reads r ts (.punct ',' j :: mid) a f)
    (hs : CommaList r mid as g) :
    CommaList r ts ((a, true) :: as) (f ++ .plain [.punct ',' false] ++ g)

/-- A last item with a comma after it or not. -/
theorem CommaList.single (comma : Bool) {item : List Token} (hne : item ≠ [])
    (h : Reads r (item ++ lastComma comma) (lastComma comma) a f) :
    CommaList r (item ++ lastComma comma) [(a, comma)] (f ++ .plain (lastComma comma)) := by
  cases comma with
  | true =>
    have hlt : ([] : List Token).length < (item ++ lastComma true).length :=
      List.length_pos_iff.mpr (List.append_ne_nil_of_left_ne_nil hne _)
    have hmore := CommaList.more hlt h .nil
    rw [Fragment.append_empty] at hmore
    exact hmore
  | false =>
    rw [show lastComma false = [] from rfl, List.append_nil] at h ⊢
    exact (f.append_empty).symm ▸ CommaList.last hne h

theorem reads_comma (j : Bool) (ts : List Token) :
    Reads (op ",") (.punct ',' j :: ts) ts () (.plain [.punct ',' false]) := by
  cases j <;> exact reads_op rfl rfl

theorem reads_atEnd_of_ne_nil (h : ts ≠ []) : Reads atEnd ts ts false .empty := by
  cases ts with
  | nil => exact absurd rfl h
  | cons t ts => exact reads_sees _ _

theorem reads_commaRound_nil (r : Reader α) : Reads (commaRound r) [] [] none .empty :=
  (reads_sees List.isEmpty []).andThen (reads_pure none [])

theorem CommaList.collects {as : List (α × Bool)} (h : CommaList r ts as f) :
    Collects (commaRound r) ts [] as f := by
  induction h with
  | nil => exact .stop (reads_commaRound_nil r)
  | @last item a f hne h =>
    have hround : Reads (commaRound r) item [] (some (a, false)) f := by
      refine (reads_atEnd_of_ne_nil hne).andThen (h.before ?_)
      exact (reads_sees List.isEmpty []).andThen (reads_pure (some (a, false)) [])
    rw [← f.append_empty]
    exact .round hround (List.length_pos_iff.mpr hne) (.stop (reads_commaRound_nil r))
  | @more ts mid j a as f g hlt h hs ih =>
    have hne : ts ≠ [] := List.ne_nil_of_length_pos (Nat.zero_lt_of_lt hlt)
    refine Collects.round ?_ hlt ih
    refine (reads_atEnd_of_ne_nil hne).andThen (h.bind ?_)
    refine (reads_atEnd_of_ne_nil (List.cons_ne_nil _ _)).andThen ?_
    exact (reads_comma j mid).before (reads_pure (some (a, true)) mid)

theorem CommaList.reads {as : List (α × Bool)} (h : CommaList r ts as f) :
    Reads (commaList r) ts [] (as.map Prod.fst, (as.getLast?.map Prod.snd).getD false) f :=
  h.collects.reads.before (reads_pure _ [])

/-- Nothing is collected where nothing is found. -/
theorem reads_collect_nil {r : Reader (Option α)} (h : Reads r ts ts none .empty) :
    Reads (collect r) ts ts [] .empty := (Collects.stop h).reads

/-- Nothing more is found at the end. -/
theorem collects_untilEnd_nil (r : Reader α) :
    Collects (do if ← atEnd then return none else return some (← r)) [] [] [] .empty :=
  .stop ((reads_sees List.isEmpty []).andThen (reads_pure none []))

/-- A round of reading things up to the end. -/
theorem collects_untilEnd_cons {as : List α} (hlt : mid.length < ts.length)
    (h : Reads r ts mid a f)
    (hs : Collects (do if ← atEnd then return none else return some (← r)) mid [] as g) :
    Collects (do if ← atEnd then return none else return some (← r)) ts [] (a :: as) (f ++ g) := by
  refine .round ?_ hlt hs
  refine (reads_atEnd_of_ne_nil (List.ne_nil_of_length_pos (Nat.zero_lt_of_lt hlt))).andThen ?_
  exact h.before (reads_pure (some a) mid)

/-! ## 5. Answers alone -/

/-- The reader reads the tokens up to `rest` and answers `a`, whatever it writes down. -/
def Answers (r : Reader α) (ts rest : List Token) (a : α) : Prop := ∃ f, Reads r ts rest a f

theorem Reads.answers {f : Fragment} (h : Reads r ts rest a f) : Answers r ts rest a := ⟨f, h⟩

theorem answers_pure (a : α) (ts : List Token) : Answers (pure a) ts ts a :=
  (reads_pure a ts).answers

theorem Answers.bind (hr : Answers r ts mid a) (hk : Answers (k a) mid rest b) :
    Answers (r >>= k) ts rest b := by
  obtain ⟨f, hr⟩ := hr
  obtain ⟨g, hk⟩ := hk
  exact ⟨f ++ g, hr.bind hk⟩

theorem Answers.map {φ : α → β} (hr : Answers r ts rest a) : Answers (φ <$> r) ts rest (φ a) := by
  obtain ⟨f, hr⟩ := hr
  exact hr.map.answers

theorem Answers.inGroup (d : Delimiter) (hr : Answers r ts [] a) (rest : List Token) :
    Answers (Reader.inGroup d r) (.group d ts :: rest) rest a := by
  obtain ⟨f, hr⟩ := hr
  exact (hr.inGroup d rest).answers

theorem Answers.run? (hr : Answers r ts [] a) : r.run? ts = some a := by
  obtain ⟨f, hr⟩ := hr
  exact hr.run?

/-- The items of a list. -/
theorem CommaList.answers {as : List (α × Bool)} {bs : List α} (h : CommaList r ts as f)
    (hbs : as.map Prod.fst = bs) : Answers (Prod.fst <$> commaList r) ts [] bs := by
  subst hbs
  exact h.reads.answers.map

section

variable {ι : Type} {ψ : ι → α} {xs : List ι}

/-- A list with a comma after each item. -/
theorem exists_commaList_flatMap {φ : ι → List Token} (h : ∀ x ∈ xs, ∀ rest,
      Answers r (φ x ++ .punct ',' false :: rest) (.punct ',' false :: rest) (ψ x)) :
    ∃ as f, CommaList r (xs.flatMap fun x => φ x ++ [.punct ',' false]) as f ∧
      as.map Prod.fst = xs.map ψ := by
  induction xs with
  | nil => exact ⟨[], _, .nil, rfl⟩
  | cons x xs ih =>
    obtain ⟨as, f, hlist, hfst⟩ := ih fun y hy => h y (List.mem_cons_of_mem _ hy)
    obtain ⟨g, hx⟩ := h x List.mem_cons_self (xs.flatMap fun x => φ x ++ [.punct ',' false])
    rw [List.flatMap_cons, List.append_assoc]
    refine ⟨(ψ x, true) :: as, _, .more ?_ hx hlist, by rw [List.map_cons, List.map_cons, hfst]⟩
    simp only [List.length_append, List.length_singleton]
    omega

/-- A list of items of one token each, with commas between them. -/
theorem exists_commaList_intercalate {φ : ι → Token}
    (h : ∀ x ∈ xs, ∀ rest, ClosedBy [','] rest → Answers r (φ x :: rest) rest (ψ x)) :
    ∃ as f, CommaList r (List.intercalate [.punct ',' false] (xs.map fun x => [φ x])) as f ∧
      as.map Prod.fst = xs.map ψ := by
  -- Item by item from the front. Each ends at its comma, the last one at the end.
  induction xs with
  | nil => exact ⟨[], _, .nil, rfl⟩
  | cons x xs ih =>
    obtain ⟨as, f, hlist, hfst⟩ := ih fun y hy => h y (List.mem_cons_of_mem _ hy)
    have hx := h x List.mem_cons_self
    cases xs with
    | nil =>
      obtain ⟨g, hx⟩ := hx [] trivial
      exact ⟨[(ψ x, false)], _, .last (List.cons_ne_nil _ _) hx, rfl⟩
    | cons y xs =>
      obtain ⟨g, hx⟩ := hx (.punct ',' false ::
        List.intercalate [.punct ',' false] ((y :: xs).map fun x => [φ x]))
        (closedBy_punct List.mem_cons_self _ _)
      have hmore := CommaList.more (by simp only [List.length_cons]; omega) hx hlist
      have htokens : List.intercalate [.punct ',' false] ((x :: y :: xs).map fun x => [φ x]) =
          φ x :: .punct ',' false ::
            List.intercalate [.punct ',' false] ((y :: xs).map fun x => [φ x]) := rfl
      rw [htokens]
      exact ⟨(ψ x, true) :: as, _, hmore, by rw [List.map_cons, List.map_cons, hfst]⟩

/-- Things one after the other up to the end. -/
theorem answers_untilEnd {φ : ι → List Token} (hne : ∀ x ∈ xs, φ x ≠ [])
    (h : ∀ x ∈ xs, ∀ rest, Answers r (φ x ++ rest) rest (ψ x)) :
    Answers (untilEnd r) (xs.flatMap φ) [] (xs.map ψ) := by
  have hcollects : ∃ f, Collects (do if ← atEnd then return none else return some (← r))
      (xs.flatMap φ) [] (xs.map ψ) f := by
    induction xs with
    | nil => exact ⟨_, collects_untilEnd_nil r⟩
    | cons x xs ih =>
      obtain ⟨f, hcollects⟩ := ih (fun y hy => hne y (List.mem_cons_of_mem _ hy))
        fun y hy => h y (List.mem_cons_of_mem _ hy)
      obtain ⟨g, hx⟩ := h x List.mem_cons_self (xs.flatMap φ)
      refine ⟨_, collects_untilEnd_cons ?_ hx hcollects⟩
      have hpos := List.length_pos_iff.mpr (hne x List.mem_cons_self)
      rw [List.flatMap_cons, List.length_append]
      omega
  obtain ⟨f, hcollects⟩ := hcollects
  exact hcollects.reads.answers

end

end Reader

end Syntax

end EnumCatalog
