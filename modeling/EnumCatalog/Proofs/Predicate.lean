import EnumCatalog.Proofs.Attributes
import EnumCatalog.Proofs.Site
import Mathlib.Data.List.Forall2

/-!
# What predicates decide

A verdict that is reached without knowing the options stands whatever the options are
(`Options.stands_eval`). The connectives respect this order of verdicts, so the induction is over
the predicate and nothing is asked of it: a malformed part is undecided both times.

Where the options are known and a predicate is well formed, the verdict is its classical value
(`Options.holds`). What is well formed is said of tokens (`Spells`), since it is as tokens that a
predicate stands in an attribute. To read it back, one meta item at a time, is the larger part of
the work: the brackets of each level are read anew, with a bound for the levels below.
-/

set_option autoImplicit false

namespace EnumCatalog.Cfg

open Syntax (Attribute Grammar Meta NamePath Path)
open Syntax.Reader

/-! ## 1. Verdicts that stand -/

namespace Verdict

theorem or_eq_true_iff (a b : Verdict) :
    or a b = some true ↔ a = some true ∨ b = some true := by
  rcases a with _ | _ | _ <;> rcases b with _ | _ | _ <;> simp [or]

theorem or_eq_false_iff (a b : Verdict) :
    or a b = some false ↔ a = some false ∧ b = some false := by
  rcases a with _ | _ | _ <;> rcases b with _ | _ | _ <;> simp [or]

/-- What the first verdict says, the second one says too. -/
def Stands (v w : Verdict) : Prop := ∀ b, v = some b → w = some b

variable {v v' w w' : Verdict} {vs ws : List Verdict}

theorem stands_refl (v : Verdict) : Stands v v := fun _ => id

theorem stands_none (w : Verdict) : Stands none w := by
  intro b hb
  cases hb

theorem Stands.and (h : Stands v w) (h' : Stands v' w') : Stands (v.and v') (w.and w') := by
  intro b hb
  cases b with
  | true =>
    rw [and_eq_true_iff] at hb ⊢
    exact ⟨h true hb.1, h' true hb.2⟩
  | false =>
    rw [and_eq_false_iff] at hb ⊢
    exact hb.imp (h false) (h' false)

theorem Stands.or (h : Stands v w) (h' : Stands v' w') : Stands (v.or v') (w.or w') := by
  intro b hb
  cases b with
  | true =>
    rw [or_eq_true_iff] at hb ⊢
    exact hb.imp (h true) (h' true)
  | false =>
    rw [or_eq_false_iff] at hb ⊢
    exact ⟨h false hb.1, h' false hb.2⟩

theorem Stands.not (h : Stands v w) : Stands v.not w.not := by
  intro b hb
  obtain ⟨x, hx, rfl⟩ := Option.map_eq_some_iff.mp hb
  rw [Verdict.not, h x hx, Option.map_some]

theorem Stands.foldl {op : Verdict → Verdict → Verdict}
    (hop : ∀ {v w v' w'}, Stands v w → Stands v' w' → Stands (op v v') (op w w'))
    (hs : List.Forall₂ Stands vs ws) (h : Stands v w) :
    Stands (vs.foldl op v) (ws.foldl op w) := by
  induction hs generalizing v w with
  | nil => exact h
  | cons h' _ ih => exact ih (hop h h')

theorem Stands.all (hs : List.Forall₂ Stands vs ws) : Stands (Verdict.all vs) (Verdict.all ws) :=
  Stands.foldl Stands.and hs (stands_refl _)

theorem Stands.any (hs : List.Forall₂ Stands vs ws) : Stands (Verdict.any vs) (Verdict.any ws) :=
  Stands.foldl Stands.or hs (stands_refl _)

/-- Verdicts that all decide are as good as truth values. -/
theorem all_map_some (bs : List Bool) : Verdict.all (bs.map some) = some (bs.all id) := by
  suffices h : ∀ b, (bs.map some).foldl Verdict.and (some b) = some (b && bs.all id) from h true
  induction bs with
  | nil => simp
  | cons b bs ih =>
    intro a
    have hand : Verdict.and (some a) (some b) = some (a && b) := by cases a <;> cases b <;> rfl
    rw [List.map_cons, List.foldl_cons, hand, ih, List.all_cons, id, Bool.and_assoc]

theorem any_map_some (bs : List Bool) : Verdict.any (bs.map some) = some (bs.any id) := by
  suffices h : ∀ b, (bs.map some).foldl Verdict.or (some b) = some (b || bs.any id) from h false
  induction bs with
  | nil => simp
  | cons b bs ih =>
    intro a
    have hor : Verdict.or (some a) (some b) = some (a || b) := by cases a <;> cases b <;> rfl
    rw [List.map_cons, List.foldl_cons, hor, ih, List.any_cons, id, Bool.or_assoc]

end Verdict

open Verdict (Stands)

/-! ## 2. More information -/

namespace Options

variable {u : Options}

mutual

/-- What is decided without knowing the options stands under all options. -/
theorem stands_eval (hu : u.known = false) (o : Options) : ∀ p, Stands (u.eval p) (o.eval p)
  | .option name => by
    intro b hb
    rw [eval, option, hu] at hb
    rw [eval, option]
    -- Only an option that is never set is decided on both sides.
    split at hb
    · next hnever => rw [if_pos hnever, hb]
    · cases hb
  | .optionValue name value => by
    rw [eval, option, hu]
    exact Verdict.stands_none _
  | .feature name => by
    rw [eval, feature, hu]
    exact Verdict.stands_none _
  | .all ps => by
    rw [eval, eval]
    exact Stands.all (forall₂_evalAll hu o ps)
  | .any ps => by
    rw [eval, eval]
    exact Stands.any (forall₂_evalAll hu o ps)
  | .not p => by
    rw [eval, eval]
    exact (stands_eval hu o p).not
  | .unclear => by
    rw [eval]
    exact Verdict.stands_none _

theorem forall₂_evalAll (hu : u.known = false) (o : Options) :
    ∀ ps, List.Forall₂ Stands (u.evalAll ps) (o.evalAll ps)
  | [] => .nil
  | p :: ps => .cons (stands_eval hu o p) (forall₂_evalAll hu o ps)

end

theorem stands_enabled (hu : u.known = false) (o : Options) (attrs : List Attribute) :
    Stands (u.enabled attrs) (o.enabled attrs) := by
  refine Stands.all ?_
  rw [List.forall₂_map_left_iff, List.forall₂_map_right_iff, List.forall₂_same]
  exact fun a _ => stands_eval hu o _

/-! ## 3. Classical values -/

mutual

/-- The value of a predicate if its options are true or false. -/
def holds (o : Options) : Predicate → Bool
  | .option name => !neverSet.contains name && o.options.contains (name, .none)
  | .optionValue name value => o.options.contains (name, some value)
  | .feature name => o.features.contains (featureKey name)
  | .all ps => (holdsEach o ps).all id
  | .any ps => (holdsEach o ps).any id
  | .not p => !holds o p
  | .unclear => false

def holdsEach (o : Options) : List Predicate → List Bool
  | [] => []
  | p :: ps => holds o p :: holdsEach o ps

end

end Options

/-! ## 4. Well-formed predicates -/

mutual

/-- The tokens of a well-formed predicate: an identifier, an identifier with a string after an
equals sign, or one of the connectives with well-formed predicates between brackets. -/
inductive Spells : List Token → Predicate → Prop
  | option {i : Ident} (hi : i.isSegment = true) : Spells [.ident i] (.option i.text)
  | optionValue {i : Ident} {text value : String} (j : Bool) (hi : i.isSegment = true)
    (hname : i.text ≠ "feature") (hvalue : Literal.stringValue? text = some value) :
    Spells [.ident i, .punct '=' j, .literal text] (.optionValue i.text value)
  | feature {i : Ident} {text value : String} (j : Bool) (hi : i.isSegment = true)
    (hname : i.text = "feature") (hvalue : Literal.stringValue? text = some value) :
    Spells [.ident i, .punct '=' j, .literal text] (.feature value)
  | all {i : Ident} {inner : List Token} {ps : List Predicate} (d : Delimiter)
    (hi : i.isWord "all" = true) (h : SpellsEach inner ps) :
    Spells [.ident i, .group d inner] (.all ps)
  | any {i : Ident} {inner : List Token} {ps : List Predicate} (d : Delimiter)
    (hi : i.isWord "any" = true) (h : SpellsEach inner ps) :
    Spells [.ident i, .group d inner] (.any ps)
  | not {i : Ident} {inner : List Token} {p : Predicate} (d : Delimiter)
    (hi : i.isWord "not" = true) (h : SpellsEach inner [p]) :
    Spells [.ident i, .group d inner] (.not p)

/-- Well-formed predicates with commas between them; a comma may also follow the last. -/
inductive SpellsEach : List Token → List Predicate → Prop
  | nil : SpellsEach [] []
  | last {ts : List Token} {p : Predicate} (h : Spells ts p) : SpellsEach ts [p]
  | more {ts rest : List Token} {p : Predicate} {ps : List Predicate} (j : Bool) (h : Spells ts p)
    (hs : SpellsEach rest ps) : SpellsEach (ts ++ .punct ',' j :: rest) (p :: ps)

end

/-- The attribute asks for the predicate: a well-formed one between its brackets. -/
def AsksFor (a : Attribute) (p : Predicate) : Prop := ∃ ts, a.arguments? = some ts ∧ Spells ts p

theorem Spells.ne_nil {ts : List Token} {p : Predicate} (h : Spells ts p) : ts ≠ [] := by
  cases h <;> exact List.cons_ne_nil _ _

section

variable {o : Options}

mutual

/-- Under known options a well-formed predicate has its classical value. -/
theorem Spells.eval_eq (ho : o.known = true) :
    ∀ {ts p}, Spells ts p → o.eval p = some (o.holds p)
  | _, _, @Spells.option i _ => by
    rw [Options.eval, Options.option, Options.holds, ho]
    cases Options.neverSet.contains i.text <;> simp
  | _, _, .optionValue .. => by
    rw [Options.eval, Options.option, Options.holds, ho]
    rfl
  | _, _, .feature .. => by
    rw [Options.eval, Options.feature, Options.holds, ho]
    rfl
  | _, _, .all _ _ h => by rw [Options.eval, h.evalAll_eq ho, Verdict.all_map_some, Options.holds]
  | _, _, .any _ _ h => by rw [Options.eval, h.evalAll_eq ho, Verdict.any_map_some, Options.holds]
  | _, _, .not _ _ h => by
    have hp := h.evalAll_eq ho
    rw [Options.evalAll, Options.holdsEach, List.map_cons, List.cons.injEq] at hp
    rw [Options.eval, hp.1, Options.holds]
    rfl

theorem SpellsEach.evalAll_eq (ho : o.known = true) :
    ∀ {ts ps}, SpellsEach ts ps → o.evalAll ps = (o.holdsEach ps).map some
  | _, _, .nil => rfl
  | _, _, .last h => by
    rw [Options.evalAll, h.eval_eq ho]
    rfl
  | _, _, .more _ h hs => by
    rw [Options.evalAll, h.eval_eq ho, hs.evalAll_eq ho]
    rfl

end

end

/-! ## 5. Reading them back -/

/-- A meta item is what the tokens are read as, and what it asks for is the predicate, whatever
bound for its levels is granted that suffices for the tokens. -/
structure ReadAs (ts : List Token) (m : Meta) (p : Predicate) : Prop where
  reads : ∀ g rest, Syntax.ClosedBy [','] rest →
    Reads (Meta.read (Grammar.rules (Grammar.rules g)).value) (ts ++ rest) rest m m.fragment
  size : Token.sizeAll m.fragment.tokens = Token.sizeAll ts
  within : ∀ depth, Token.sizeAll ts ≤ depth → Predicate.ofMetaWithin depth m = p

/-- The path of one segment. -/
def ofSegment (i : Ident) (hi : i.isSegment = true) : NamePath where
  leading := false
  first := i
  others := []
  isSegment := by
    intro j hj
    rw [List.mem_singleton.mp hj, hi]

variable {i : Ident} {text value : String} {inner : List Token}

theorem readAs_option (hi : i.isSegment = true) :
    ReadAs [.ident i] (.path (.ofIdent i)) (.option i.text) where
  reads g rest hrest := by
    have hcolons : Syntax.atOp "::" rest = false := hrest.not_atOp (by decide)
    exact Meta.reads_read _ (ofSegment i hi) hcolons (Meta.reads_readAfter_path _ _ hrest)
  size := rfl
  within depth hdepth := by
    cases depth with
    | zero => cases hdepth
    | succ depth => rfl

theorem readAs_value (j : Bool) (hi : i.isSegment = true)
    (hvalue : Literal.stringValue? text = some value) :
    ReadAs [.ident i, .punct '=' j, .literal text] (.value (.ofIdent i) (.plain [.literal text]))
      (if i.text == "feature" then .feature value else .optionValue i.text value) where
  reads g rest hrest := by
    have hcolons : Syntax.atOp "::" (.punct '=' j :: .literal text :: rest) = false :=
      Syntax.atChars_of_ne (by decide) [':'] j _
    exact Meta.reads_read _ (ofSegment i hi) hcolons (Meta.reads_readAfter_literal g _ j hrest)
  size := rfl
  within depth hdepth := by
    have hstring : (Syntax.Fragment.plain [.literal text]).stringValue? = some value := hvalue
    cases depth with
    | zero => cases hdepth
    | succ depth =>
      rw [Predicate.ofMetaWithin, hstring]
      rfl

/-- Brackets after a word, whatever the word makes of what is between them. -/
theorem readAs_list {p : Predicate} {w : String} (d : Delimiter) (hi : i.isWord w = true)
    (hw : w ∉ Ident.reservedWords)
    (hwithin : ∀ depth, Token.sizeAll inner ≤ depth →
      Predicate.ofMetaWithin (depth + 1) (.list (.ofIdent i) d inner) = p) :
    ReadAs [.ident i, .group d inner] (.list (.ofIdent i) d inner) p where
  reads g rest hrest := by
    have hsegment := Ident.isSegment_of_isName (Ident.isName_of_isWord hi hw)
    exact Meta.reads_read _ (ofSegment i hsegment) rfl (Meta.reads_readAfter_list _ _ d inner rest)
  size := rfl
  within depth hdepth := by
    simp only [Token.sizeAll, Token.size] at hdepth
    cases depth with
    | zero => omega
    | succ depth => exact hwithin depth (by omega)

section

variable {ms : List Meta} (d : Delimiter) (hlist : Meta.listOfTokens? inner = some ms)
  (depth : Nat)

include hlist

theorem ofMetaWithin_all (hi : i.isWord "all" = true) :
    Predicate.ofMetaWithin (depth + 1) (.list (.ofIdent i) d inner) =
      .all (ms.map (Predicate.ofMetaWithin depth)) := by
  have hpath : (Path.ofIdent i).isWord "all" = true := hi
  simp only [Predicate.ofMetaWithin, hlist, hpath, if_true]

theorem ofMetaWithin_any (hi : i.isWord "any" = true) :
    Predicate.ofMetaWithin (depth + 1) (.list (.ofIdent i) d inner) =
      .any (ms.map (Predicate.ofMetaWithin depth)) := by
  have hpath : (Path.ofIdent i).isWord "any" = true := hi
  have hall : (Path.ofIdent i).isWord "all" = false := Ident.not_isWord_of_isWord hi (by decide)
  simp only [Predicate.ofMetaWithin, hlist, hpath, hall, Bool.false_eq_true, if_true, if_false]

end

theorem ofMetaWithin_not {m : Meta} (d : Delimiter) (hlist : Meta.listOfTokens? inner = some [m])
    (depth : Nat) (hi : i.isWord "not" = true) :
    Predicate.ofMetaWithin (depth + 1) (.list (.ofIdent i) d inner) =
      .not (Predicate.ofMetaWithin depth m) := by
  have hpath : (Path.ofIdent i).isWord "not" = true := hi
  have hall : (Path.ofIdent i).isWord "all" = false := Ident.not_isWord_of_isWord hi (by decide)
  have hany : (Path.ofIdent i).isWord "any" = false := Ident.not_isWord_of_isWord hi (by decide)
  simp only [Predicate.ofMetaWithin, hlist, hpath, hall, hany, Bool.false_eq_true, if_true,
    if_false]

/-- Meta items are read from the tokens with commas between them, and each asks for its predicate. -/
def ListsAs (ts : List Token) (ms : List (Meta × Bool)) (ps : List Predicate) : Prop :=
  (∀ g, ∃ f, CommaList (Meta.read (Grammar.rules (Grammar.rules g)).value) ts ms f) ∧
    ∀ depth, Token.sizeAll ts ≤ depth → ms.map (Predicate.ofMetaWithin depth ·.1) = ps

theorem ListsAs.listOfTokens? {ts : List Token} {ms : List (Meta × Bool)} {ps : List Predicate}
    (h : ListsAs ts ms ps) : ∃ ms', Meta.listOfTokens? ts = some ms' ∧
      ∀ depth, Token.sizeAll ts ≤ depth → ms'.map (Predicate.ofMetaWithin depth) = ps := by
  refine ⟨_, Meta.listOfTokens?_of_commaList h.1, ?_⟩
  intro depth hdepth
  rw [List.map_map]
  exact h.2 depth hdepth

mutual

/-- A well-formed predicate is read as a meta item that asks for it. -/
theorem Spells.exists_readAs : ∀ {ts p}, Spells ts p → ∃ m, ReadAs ts m p
  | _, _, .option hi => ⟨_, readAs_option hi⟩
  | _, _, .optionValue j hi hname hvalue => by
    have hread := readAs_value j hi hvalue
    rw [if_neg (by simpa using hname)] at hread
    exact ⟨_, hread⟩
  | _, _, .feature j hi hname hvalue => by
    have hread := readAs_value j hi hvalue
    rw [if_pos (by simpa using hname)] at hread
    exact ⟨_, hread⟩
  | _, _, .all d hi h => by
    obtain ⟨ms, hms⟩ := h.exists_listsAs
    obtain ⟨ms', hlist, hwithin⟩ := hms.listOfTokens?
    refine ⟨_, readAs_list d hi (by decide) fun depth hdepth => ?_⟩
    rw [ofMetaWithin_all d hlist depth hi, hwithin depth hdepth]
  | _, _, .any d hi h => by
    obtain ⟨ms, hms⟩ := h.exists_listsAs
    obtain ⟨ms', hlist, hwithin⟩ := hms.listOfTokens?
    refine ⟨_, readAs_list d hi (by decide) fun depth hdepth => ?_⟩
    rw [ofMetaWithin_any d hlist depth hi, hwithin depth hdepth]
  | _, _, .not d hi h => by
    obtain ⟨ms, hms⟩ := h.exists_listsAs
    obtain ⟨ms', hlist, hwithin⟩ := hms.listOfTokens?
    -- One predicate is asked for, so one meta item has been read.
    obtain ⟨m, rfl⟩ : ∃ m, ms' = [m] :=
      List.length_eq_one_iff.mp (by simpa using congrArg List.length (hwithin _ (Nat.le_refl _)))
    refine ⟨_, readAs_list d hi (by decide) fun depth hdepth => ?_⟩
    rw [ofMetaWithin_not d hlist depth hi, List.singleton_inj.mp (hwithin depth hdepth)]

theorem SpellsEach.exists_listsAs : ∀ {ts ps}, SpellsEach ts ps → ∃ ms, ListsAs ts ms ps
  | _, _, .nil => ⟨[], fun _ => ⟨_, .nil⟩, fun _ _ => rfl⟩
  | _, _, .last h => by
    obtain ⟨m, hread⟩ := h.exists_readAs
    refine ⟨[(m, false)], fun g => ⟨m.fragment, .last h.ne_nil ?_⟩, fun depth hdepth => ?_⟩
    · have hitem := hread.reads g [] trivial
      rw [List.append_nil] at hitem
      exact hitem
    · rw [List.map_singleton, hread.within depth hdepth]
  | _, _, @SpellsEach.more ts rest _ _ j h hs => by
    obtain ⟨m, hread⟩ := h.exists_readAs
    obtain ⟨ms, hlists⟩ := hs.exists_listsAs
    refine ⟨(m, true) :: ms, fun g => ?_, fun depth hdepth => ?_⟩
    -- The item is read up to the comma, whatever follows it.
    · obtain ⟨f, hrest⟩ := hlists.1 g
      have hclosed : Syntax.ClosedBy [','] (.punct ',' j :: rest) :=
        Syntax.closedBy_punct List.mem_cons_self j rest
      exact ⟨_, .more (by simp; omega) (hread.reads g _ hclosed) hrest⟩
    · rw [Token.sizeAll_append, Token.sizeAll] at hdepth
      rw [List.map_cons, hread.within depth (by omega), hlists.2 depth (by omega)]

end

theorem AsksFor.ofAttribute_eq {a : Attribute} {p : Predicate} (h : AsksFor a p) :
    Predicate.ofAttribute a = p := by
  obtain ⟨ts, harguments, hspells⟩ := h
  obtain ⟨m, hread⟩ := hspells.exists_readAs
  have hmeta : Meta.ofTokens? ts = some m := by
    refine Meta.ofTokens?_of_reads fun g => ⟨m.fragment, ?_⟩
    have hitem := hread.reads g [] trivial
    rw [List.append_nil] at hitem
    exact hitem
  rw [Predicate.ofAttribute, harguments, Option.bind_some, hmeta]
  exact hread.within _ (by rw [hread.size]; omega)

/-! ## 6. Attributes -/

/-- What attributes decide where the options are unknown they decide under all known options, and
there well-formed predicates are decided as in classical logic. -/
theorem Options.enabled_known (u k : Options) (hu : u.known = false) (hk : k.known = true)
    (attrs : List Attribute) :
    (∀ b, u.enabled attrs = some b → k.enabled attrs = some b) ∧
      ∀ ps, List.Forall₂ AsksFor (attrs.filter (·.name.isWord "cfg")) ps →
        k.enabled attrs = some (ps.all k.holds) := by
  refine ⟨Options.stands_enabled hu k attrs, fun ps hps => ?_⟩
  have hverdicts : (attrs.filter (·.name.isWord "cfg")).map (fun a => k.eval (.ofAttribute a)) =
      (ps.map k.holds).map some := by
    generalize attrs.filter (·.name.isWord "cfg") = as at hps
    induction hps with
    | nil => rfl
    | @cons a p as ps h hs ih =>
      obtain ⟨ts, -, hspells⟩ := id h
      rw [List.map_cons, ih, h.ofAttribute_eq, hspells.eval_eq hk, List.map_cons, List.map_cons]
  rw [Options.enabled, hverdicts, Verdict.all_map_some, List.all_map]
  rfl

/-- The attribute of what is not for tests or needs a feature. -/
def notTest : Attribute :=
  ⟨false, .list (.ofIdent (.plain "cfg")) .paren
    [.word "any", .paren ([.word "not", .paren [.word "test"]] ++ .punct ',' false ::
      [.word "feature", .punct '=' false, .literal "\"some-feature\""])]⟩

theorem asksFor_notTest :
    AsksFor notTest (.any [.not (.option "test"), .feature "some-feature"]) := by
  have hnot : Spells [.word "not", .paren [.word "test"]] (.not (.option "test")) :=
    .not .paren rfl (.last (.option rfl))
  have hfeature : Spells [.word "feature", .punct '=' false, .literal "\"some-feature\""]
      (.feature "some-feature") := .feature false rfl rfl rfl
  exact ⟨_, rfl, .any .paren rfl (.more false hnot (.last hfeature))⟩

theorem Options.enabled_known_notTest :
    unknown.enabled [notTest] = some true ∧ none.enabled [notTest] = some true ∧
      none.holds (.any [.not (.option "test"), .feature "some-feature"]) = true := by
  have hunknown : unknown.enabled [notTest] = some true := by
    show Verdict.all [unknown.eval (.ofAttribute notTest)] = some true
    rw [asksFor_notTest.ofAttribute_eq]
    rfl
  obtain ⟨hstands, hholds⟩ := enabled_known unknown none rfl rfl [notTest]
  have hvalue := hholds [_] (.cons asksFor_notTest .nil)
  rw [hstands true hunknown] at hvalue
  exact ⟨hunknown, hstands true hunknown, by simpa using hvalue.symm⟩

end EnumCatalog.Cfg
