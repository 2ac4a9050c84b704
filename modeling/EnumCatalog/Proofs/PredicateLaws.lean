import EnumCatalog.Proofs.MetaLists
import EnumCatalog.Proofs.Predicate

/-!
# The laws of predicates

Predicates obey the laws of three-valued logic as they are written. What a list of arguments decides
depends on its head and on what each argument decides by itself (`Options.verdict_list`): this is the
equation from which the laws follow. It is said of tokens, and of anything that can stand as an
argument, so a malformed argument is one that decides nothing. A list that cannot be taken apart into
arguments decides nothing either.

Two things stand between the code and that equation. An argument is read in front of a comma, and not
alone; and how deep arguments are followed is bounded by the number of tokens around them, which
suffices (`Predicate.ofMetaWithin_eq`).
-/

set_option autoImplicit false

namespace EnumCatalog.Cfg

open Syntax (Attribute Joins Meta NamePath Path)

/-! ## 1. Connectives -/

namespace Verdict

variable {vs ws : List Verdict}

/-- A connective that decides so once one side does. -/
theorem foldl_eq_iff_mem {op : Verdict → Verdict → Verdict} {x : Verdict}
    (hop : ∀ a b, op a b = x ↔ a = x ∨ b = x) (vs : List Verdict) (a : Verdict) :
    vs.foldl op a = x ↔ a = x ∨ x ∈ vs := by
  induction vs generalizing a with
  | nil => simp
  | cons v vs ih => rw [List.foldl_cons, ih, hop, List.mem_cons, or_assoc, eq_comm (a := v)]

theorem all_eq_false_iff : Verdict.all vs = some false ↔ some false ∈ vs :=
  (foldl_eq_iff_mem and_eq_false_iff vs _).trans (or_iff_right nofun)

theorem any_eq_true_iff : Verdict.any vs = some true ↔ some true ∈ vs :=
  (foldl_eq_iff_mem or_eq_true_iff vs _).trans (or_iff_right nofun)

theorem any_eq_false_iff : Verdict.any vs = some false ↔ ∀ v ∈ vs, v = some false :=
  (foldl_eq_iff_forall or_eq_false_iff vs _).trans (and_iff_right rfl)

/-- Verdicts are the same if they say yes and say no in the same cases. -/
theorem eq_of_iff {v w : Verdict} (htrue : v = some true ↔ w = some true)
    (hfalse : v = some false ↔ w = some false) : v = w := by
  rcases v with _ | _ | _ <;> rcases w with _ | _ | _ <;> simp_all

/-- Order and number of the sides are of no matter. -/
theorem all_congr (h : ∀ v, v ∈ vs ↔ v ∈ ws) : Verdict.all vs = Verdict.all ws := by
  refine eq_of_iff ?_ ?_
  · simp only [all_eq_true_iff, h]
  · rw [all_eq_false_iff, all_eq_false_iff, h]

theorem any_congr (h : ∀ v, v ∈ vs ↔ v ∈ ws) : Verdict.any vs = Verdict.any ws := by
  refine eq_of_iff ?_ ?_
  · rw [any_eq_true_iff, any_eq_true_iff, h]
  · simp only [any_eq_false_iff, h]

theorem all_singleton (v : Verdict) : Verdict.all [v] = v := by
  rcases v with _ | _ | _ <;> rfl

theorem not_eq_some_iff (v : Verdict) (b : Bool) : v.not = some b ↔ v = some (!b) := by
  rcases v with _ | _ | _ <;> cases b <;> simp [Verdict.not]

theorem mem_map_not_iff (b : Bool) : some b ∈ vs.map Verdict.not ↔ some (!b) ∈ vs := by
  simp only [List.mem_map, not_eq_some_iff, exists_eq_right]

theorem not_all (vs : List Verdict) : (Verdict.all vs).not = Verdict.any (vs.map Verdict.not) := by
  refine eq_of_iff ?_ ?_
  · rw [not_eq_some_iff, any_eq_true_iff, mem_map_not_iff]
    exact all_eq_false_iff
  · rw [not_eq_some_iff, any_eq_false_iff, List.forall_mem_map]
    simp only [not_eq_some_iff]
    exact all_eq_true_iff

theorem not_any (vs : List Verdict) : (Verdict.any vs).not = Verdict.all (vs.map Verdict.not) := by
  refine eq_of_iff ?_ ?_
  · rw [not_eq_some_iff, all_eq_true_iff, List.forall_mem_map]
    simp only [not_eq_some_iff]
    exact any_eq_false_iff
  · rw [not_eq_some_iff, all_eq_false_iff, mem_map_not_iff]
    exact any_eq_true_iff

/-- What a list decides by its head, from what its arguments decide. -/
def connect (head : Path) (vs : List Verdict) : Verdict :=
  if head.isWord "all" then Verdict.all vs
  else if head.isWord "any" then Verdict.any vs
  else if head.isWord "not" then
    match vs with
    | [v] => v.not
    | _ => none
  else none

variable {i : Ident}

theorem connect_all (hi : i.isWord "all" = true) (vs : List Verdict) :
    connect (.ofIdent i) vs = Verdict.all vs := if_pos hi

theorem connect_any (hi : i.isWord "any" = true) (vs : List Verdict) :
    connect (.ofIdent i) vs = Verdict.any vs := by
  have hall : ¬ (Path.ofIdent i).isWord "all" = true :=
    Bool.eq_false_iff.mp (Ident.not_isWord_of_isWord hi (by decide))
  exact (if_neg hall).trans (if_pos hi)

theorem connect_not (hi : i.isWord "not" = true) (v : Verdict) :
    connect (.ofIdent i) [v] = v.not := by
  have hall : ¬ (Path.ofIdent i).isWord "all" = true :=
    Bool.eq_false_iff.mp (Ident.not_isWord_of_isWord hi (by decide))
  have hany : ¬ (Path.ofIdent i).isWord "any" = true :=
    Bool.eq_false_iff.mp (Ident.not_isWord_of_isWord hi (by decide))
  exact (if_neg hall).trans ((if_neg hany).trans (if_pos hi))

end Verdict

/-! ## 2. Depth -/

namespace Predicate

/-- More levels than an item has tokens within brackets make no difference. -/
theorem ofMetaWithin_eq {m : Meta} {n k : Nat} (hn : m.extent < n) (hk : m.extent < k) :
    ofMetaWithin n m = ofMetaWithin k m := by
  -- By the levels: what is in the brackets of an item has a smaller extent than the item.
  induction n generalizing m k with
  | zero => cases hn
  | succ n ih =>
    cases k with
    | zero => cases hk
    | succ k =>
      cases m with
      | path p => rfl
      | value p v => rfl
      | list p d arguments =>
        cases hlist : Meta.listOfTokens? arguments with
        | none => simp only [ofMetaWithin, hlist]
        | some ms =>
          have hms : ms.map (ofMetaWithin n) = ms.map (ofMetaWithin k) := by
            refine List.map_congr_left fun m hm => ?_
            have hlt := Meta.extent_lt_of_mem hlist hm
            exact ih (Nat.lt_of_lt_of_le hlt (Nat.le_of_lt_succ hn))
              (Nat.lt_of_lt_of_le hlt (Nat.le_of_lt_succ hk))
          simp only [ofMetaWithin, hlist, hms]
          cases ms with
          | nil => rfl
          | cons m more =>
            cases more with
            | nil => simp only [show ofMetaWithin n m = _ from List.singleton_inj.mp hms]
            | cons m' more => rfl

theorem ofMeta_eq {m : Meta} {n : Nat} (hn : m.extent < n) : ofMetaWithin n m = ofMeta m := by
  refine ofMetaWithin_eq hn ?_
  cases m with
  | path p => exact Nat.succ_pos _
  | value p v => exact Nat.succ_pos _
  | list p d arguments =>
    show Token.sizeAll arguments < Token.sizeAll (p.fragment.tokens ++ [.group d arguments]) + 1
    rw [Token.sizeAll_append]
    simp only [Token.sizeAll, Token.size]
    omega

theorem ofMeta_alike {m m' : Meta} (h : Meta.Alike m m') : ofMeta m' = ofMeta m := by
  cases h with
  | refl => rfl
  | value p h => simp only [ofMeta, ofMetaWithin, h]

end Predicate

/-! ## 3. Lists of arguments -/

/-- The tokens are a meta item, well formed or not. -/
def IsMeta (ts : List Token) : Prop := (Meta.ofTokens? ts).isSome = true

/-- With brackets behind them the tokens are a list with this path in front. -/
def IsHead (head : List Token) (p : Path) : Prop :=
  ∀ d inner, Meta.ofTokens? (head ++ [.group d inner]) = some (.list p d inner)

theorem isHead_namePath (q : NamePath) : IsHead q.tokens q.toPath := by
  intro d inner
  exact Meta.ofTokens?_of_reads fun g =>
    ⟨_, Meta.reads_read _ q rfl (Meta.reads_readAfter_list _ _ d inner [])⟩

theorem isHead_ident {i : Ident} (hi : i.isSegment = true) : IsHead [.ident i] (.ofIdent i) :=
  isHead_namePath (ofSegment i hi)

theorem isHead_of_isWord {i : Ident} {w : String} (hi : i.isWord w = true)
    (hw : w ∉ Ident.reservedWords) : IsHead [.ident i] (.ofIdent i) :=
  isHead_ident (Ident.isSegment_of_isName (Ident.isName_of_isWord hi hw))

namespace Options

variable (o : Options)

theorem evalAll_eq_map (ps : List Predicate) : o.evalAll ps = ps.map o.eval := by
  induction ps with
  | nil => rfl
  | cons p ps ih => rw [evalAll, ih, List.map_cons]

/-- What tokens decide between the brackets of a `cfg`. -/
def verdict (ts : List Token) : Verdict :=
  match Meta.ofTokens? ts with
  | some m => o.eval (.ofMeta m)
  | .none => .none

theorem eval_ofMeta_list {p : Path} {d : Delimiter} {inner : List Token} {ms : List Meta}
    (hlist : Meta.listOfTokens? inner = some ms) :
    o.eval (.ofMeta (.list p d inner)) =
      Verdict.connect p (ms.map fun m => o.eval (.ofMeta m)) := by
  have hms : ms.map (Predicate.ofMetaWithin (Token.sizeAll inner)) = ms.map .ofMeta :=
    List.map_congr_left fun m hm => Predicate.ofMeta_eq (Meta.extent_lt_of_mem hlist hm)
  have hmeta := Predicate.ofMeta_eq (m := .list p d inner) (Nat.lt_succ_self (Token.sizeAll inner))
  rw [← hmeta]
  unfold Verdict.connect
  simp only [Predicate.ofMetaWithin, hlist, hms]
  -- The operator is `all`, `any` or `not`, or there is none.
  split
  · rw [eval, evalAll_eq_map, List.map_map]
    rfl
  · split
    · rw [eval, evalAll_eq_map, List.map_map]
      rfl
    · split
      · cases ms with
        | nil => rfl
        | cons m more =>
          cases more with
          | nil =>
            have hinner : Predicate.ofMetaWithin (Token.sizeAll inner) m = .ofMeta m :=
              List.singleton_inj.mp hms
            show o.eval (.not (Predicate.ofMetaWithin (Token.sizeAll inner) m)) = _
            rw [hinner, eval]
            rfl
          | cons m' more => rfl
      · rfl

variable {o}

theorem verdict_of_ofTokens? {ts : List Token} {m : Meta} (h : Meta.ofTokens? ts = some m) :
    o.verdict ts = o.eval (.ofMeta m) := by
  rw [verdict, h]

theorem map_eval_of_alike {items : List (List Token)} {ms ms' : List Meta}
    (hms : List.Forall₂ (fun item m => Meta.ofTokens? item = some m) items ms)
    (halike : List.Forall₂ Meta.Alike ms ms') :
    ms'.map (fun m => o.eval (.ofMeta m)) = items.map o.verdict := by
  induction hms generalizing ms' with
  | nil =>
    cases halike
    rfl
  | cons hm hms ih =>
    cases halike with
    | cons h hs =>
      rw [List.map_cons, List.map_cons, ih hs, Predicate.ofMeta_alike h, verdict_of_ofTokens? hm]

/-- What a list decides depends on its head and on what the arguments decide by themselves. -/
theorem verdict_list {head inner : List Token} {p : Path} {d : Delimiter}
    {items : List (List Token)} (hhead : IsHead head p) (hjoins : Joins items inner)
    (hitems : ∀ item ∈ items, IsMeta item) :
    o.verdict (head ++ [.group d inner]) = Verdict.connect p (items.map o.verdict) := by
  obtain ⟨ms, hms⟩ : ∃ ms, List.Forall₂ (fun item m => Meta.ofTokens? item = some m) items ms := by
    refine ⟨items.map fun item => (Meta.ofTokens? item).getD default, ?_⟩
    rw [List.forall₂_map_right_iff, List.forall₂_same]
    intro item hitem
    obtain ⟨m, hm⟩ := Option.isSome_iff_exists.mp (hitems item hitem)
    rw [hm, Option.getD_some]
  obtain ⟨ms', halike, hlist⟩ := Meta.exists_listOfTokens? hjoins hms
  rw [verdict_of_ofTokens? (hhead d inner), eval_ofMeta_list o hlist, map_eval_of_alike hms halike]

theorem verdict_list_of_none {head inner : List Token} {p : Path} {d : Delimiter}
    (hhead : IsHead head p) (hlist : Meta.listOfTokens? inner = .none) :
    o.verdict (head ++ [.group d inner]) = .none := by
  rw [verdict_of_ofTokens? (hhead d inner), Predicate.ofMeta]
  simp only [Predicate.ofMetaWithin, hlist, eval]

/-- An attribute with these tokens between the brackets of a `cfg`. -/
def IsCfg (a : Attribute) (ts : List Token) : Prop :=
  a.name.isWord "cfg" = true ∧ a.arguments? = some ts

theorem eval_ofAttribute (a : Attribute) :
    o.eval (.ofAttribute a) = a.arguments?.bind o.verdict := by
  unfold Predicate.ofAttribute
  cases a.arguments? with
  | none => rfl
  | some ts =>
    show _ = o.verdict ts
    unfold verdict
    rw [Option.bind_some]
    cases Meta.ofTokens? ts with
    | none => rfl
    | some m => rfl

/-- The attributes decide what the arguments of those that are a `cfg` decide together. -/
theorem enabled_eq (attrs : List Attribute) {items : List (List Token)}
    (h : ((attrs.filter (·.name.isWord "cfg")).map (·.arguments?)).Perm (items.map some)) :
    o.enabled attrs = Verdict.all (items.map o.verdict) := by
  have hverdicts := h.map fun ts? => ts?.bind o.verdict
  rw [List.map_map, List.map_map] at hverdicts
  simp only [enabled, eval_ofAttribute]
  exact Verdict.all_congr fun v => hverdicts.mem_iff

theorem enabled_singleton {a : Attribute} {ts : List Token} (h : IsCfg a ts) :
    o.enabled [a] = o.verdict ts := by
  have hcfg : ([a].filter (·.name.isWord "cfg")).map (·.arguments?) = [ts].map some := by
    simp [h.1, h.2]
  rw [enabled_eq [a] (.of_eq hcfg), List.map_singleton, Verdict.all_singleton]

end Options

/-! ## 4. Rearranged arguments -/

theorem IsHead.isMeta {head : List Token} {p : Path} (h : IsHead head p) (d : Delimiter)
    (inner : List Token) : IsMeta (head ++ [.group d inner]) := by
  rw [IsMeta, h d inner]
  rfl

/-- The tokens differ in the order and number of the arguments of an `all` or an `any`, at any number
of places and at any depth. What is between the brackets of a list may be anything if it is no list
of arguments. -/
inductive Rearranged : List Token → List Token → Prop
  | refl (ts : List Token) : Rearranged ts ts
  | symm {ts ts' : List Token} (h : Rearranged ts ts') : Rearranged ts' ts
  | trans {ts ts' ts'' : List Token} (h : Rearranged ts ts') (h' : Rearranged ts' ts'') :
    Rearranged ts ts''
  | arguments {i : Ident} (hi : i.isWord "all" = true ∨ i.isWord "any" = true) (d d' : Delimiter)
    {items items' : List (List Token)} {inner inner' : List Token}
    (hjoins : Joins items inner) (hjoins' : Joins items' inner')
    (hitems : ∀ item ∈ items, IsMeta item) (hmem : ∀ item, item ∈ items ↔ item ∈ items') :
    Rearranged [.ident i, .group d inner] [.ident i, .group d' inner']
  | within {head : List Token} {p : Path} (hhead : IsHead head p) (d d' : Delimiter)
    {before after : List (List Token)} {item item' inner inner' : List Token}
    (hjoins : Joins (before ++ item :: after) inner)
    (hjoins' : Joins (before ++ item' :: after) inner')
    (hitems : ∀ x ∈ before ++ item :: after, IsMeta x) (h : Rearranged item item') :
    Rearranged (head ++ [.group d inner]) (head ++ [.group d' inner'])
  | unread {head : List Token} {p : Path} (hhead : IsHead head p) (d d' : Delimiter)
    {inner inner' : List Token} (h : Meta.listOfTokens? inner = none)
    (h' : Meta.listOfTokens? inner' = none) :
    Rearranged (head ++ [.group d inner]) (head ++ [.group d' inner'])

namespace Rearranged

variable {ts ts' : List Token}

theorem isHead_of_all_or_any {i : Ident} (hi : i.isWord "all" = true ∨ i.isWord "any" = true) :
    IsHead [.ident i] (.ofIdent i) :=
  hi.elim (isHead_of_isWord · (by decide)) (isHead_of_isWord · (by decide))

theorem isMeta_iff (h : Rearranged ts ts') : IsMeta ts ↔ IsMeta ts' := by
  induction h with
  | refl => rfl
  | symm _ ih => exact ih.symm
  | trans _ _ ih ih' => exact ih.trans ih'
  | arguments hi d d' =>
    have hhead := isHead_of_all_or_any hi
    exact iff_of_true (hhead.isMeta d _) (hhead.isMeta d' _)
  | within hhead d d' => exact iff_of_true (hhead.isMeta d _) (hhead.isMeta d' _)
  | unread hhead d d' => exact iff_of_true (hhead.isMeta d _) (hhead.isMeta d' _)

/-- Rearranged arguments decide the same. -/
theorem verdict_eq (o : Options) (h : Rearranged ts ts') : o.verdict ts = o.verdict ts' := by
  -- One rearrangement after the other; none of them changes which verdicts there are.
  induction h with
  | refl => rfl
  | symm _ ih => exact ih.symm
  | trans _ _ ih ih' => exact ih.trans ih'
  | @arguments i hi d d' items items' inner inner' hjoins hjoins' hitems hmem =>
    have hhead := isHead_of_all_or_any hi
    have hitems' : ∀ item ∈ items', IsMeta item := fun item hitem =>
      hitems item ((hmem item).mpr hitem)
    have hverdicts (v : Verdict) : v ∈ items.map o.verdict ↔ v ∈ items'.map o.verdict := by
      simp only [List.mem_map, hmem]
    have hconnect : Verdict.connect (.ofIdent i) (items.map o.verdict) =
        Verdict.connect (.ofIdent i) (items'.map o.verdict) := by
      rcases hi with hi | hi
      · rw [Verdict.connect_all hi, Verdict.connect_all hi, Verdict.all_congr hverdicts]
      · rw [Verdict.connect_any hi, Verdict.connect_any hi, Verdict.any_congr hverdicts]
    exact (Options.verdict_list hhead hjoins hitems).trans
      (hconnect.trans (Options.verdict_list hhead hjoins' hitems').symm)
  | @within head p hhead d d' before after item item' inner inner' hjoins hjoins' hitems h ih =>
    have hitems' : ∀ x ∈ before ++ item' :: after, IsMeta x := by
      rw [List.forall_mem_append, List.forall_mem_cons] at hitems ⊢
      exact ⟨hitems.1, h.isMeta_iff.mp hitems.2.1, hitems.2.2⟩
    rw [Options.verdict_list hhead hjoins hitems, Options.verdict_list hhead hjoins' hitems',
      List.map_append, List.map_append, List.map_cons, List.map_cons, ih]
  | unread hhead d d' h h' =>
    rw [Options.verdict_list_of_none hhead h, Options.verdict_list_of_none hhead h']

end Rearranged

/-! ## 5. Negated arguments -/

/-- The first tokens are a `not` with the others between its brackets. -/
def Denies (ts' ts : List Token) : Prop :=
  ∃ d inner, Joins [ts] inner ∧ ts' = [.word "not", .group d inner]

theorem Denies.isMeta {ts ts' : List Token} (h : Denies ts' ts) : IsMeta ts' := by
  obtain ⟨d, inner, -, rfl⟩ := h
  exact (isHead_ident (i := .plain "not") rfl).isMeta d inner

theorem Denies.verdict_eq (o : Options) {ts ts' : List Token} (h : Denies ts' ts)
    (hts : IsMeta ts) : o.verdict ts' = (o.verdict ts).not := by
  obtain ⟨d, inner, hjoins, rfl⟩ := h
  have hhead : IsHead [.word "not"] _ := isHead_ident rfl
  exact (Options.verdict_list hhead hjoins (by simpa using hts)).trans
    (Verdict.connect_not rfl (o.verdict ts))

theorem forall_isMeta_of_denies {items negated : List (List Token)}
    (h : List.Forall₂ Denies negated items) : ∀ item ∈ negated, IsMeta item := by
  induction h with
  | nil => exact fun _ hitem => absurd hitem List.not_mem_nil
  | cons h _ ih => exact List.forall_mem_cons.mpr ⟨h.isMeta, ih⟩

namespace Options

variable (o : Options) {items negated : List (List Token)} {inner : List Token}

theorem map_verdict_denies (h : List.Forall₂ Denies negated items)
    (hitems : ∀ item ∈ items, IsMeta item) :
    negated.map o.verdict = (items.map o.verdict).map Verdict.not := by
  induction h with
  | nil => rfl
  | cons h _ ih =>
    rw [List.forall_mem_cons] at hitems
    rw [List.map_cons, ih hitems.2, h.verdict_eq o hitems.1]
    rfl

theorem verdict_all (d : Delimiter) (hjoins : Joins items inner)
    (hitems : ∀ item ∈ items, IsMeta item) :
    o.verdict [.word "all", .group d inner] = Verdict.all (items.map o.verdict) :=
  (verdict_list (isHead_ident rfl) hjoins hitems).trans (Verdict.connect_all rfl _)

theorem verdict_any (d : Delimiter) (hjoins : Joins items inner)
    (hitems : ∀ item ∈ items, IsMeta item) :
    o.verdict [.word "any", .group d inner] = Verdict.any (items.map o.verdict) :=
  (verdict_list (isHead_ident rfl) hjoins hitems).trans (Verdict.connect_any rfl _)

/-! ## 6. Attributes -/

/-- Attributes decide what one with all their arguments decides; arguments may be rearranged; and
a negation may be moved inside. -/
theorem enabled_laws :
    (∀ attrs items inner d a, (∀ item ∈ items, IsMeta item) → Joins items inner →
      ((attrs.filter (·.name.isWord "cfg")).map (·.arguments?)).Perm (items.map some) →
        IsCfg a [.word "all", .group d inner] → o.enabled attrs = o.enabled [a]) ∧
    (∀ ts ts' a b, Rearranged ts ts' → IsCfg a ts → IsCfg b ts' → o.enabled [a] = o.enabled [b]) ∧
    ∀ items negated inner inner' d d' whole a b, (∀ item ∈ items, IsMeta item) →
      List.Forall₂ Denies negated items → Joins items inner → Joins negated inner' →
        IsCfg a whole →
        (Denies whole [.word "all", .group d inner] → IsCfg b [.word "any", .group d' inner'] →
          o.enabled [a] = o.enabled [b]) ∧
        (Denies whole [.word "any", .group d inner] → IsCfg b [.word "all", .group d' inner'] →
          o.enabled [a] = o.enabled [b]) := by
  refine ⟨?stacked, ?rearranged, ?negated⟩
  case stacked =>
    intro attrs items inner d a hitems hjoins hattrs ha
    rw [enabled_eq attrs hattrs, enabled_singleton ha, verdict_all o d hjoins hitems]
  case rearranged =>
    intro ts ts' a b h ha hb
    rw [enabled_singleton ha, enabled_singleton hb, h.verdict_eq o]
  case negated =>
    intro items negated inner inner' d d' whole a b hitems hnegated hjoins hjoins' ha
    have hmetas := forall_isMeta_of_denies hnegated
    have hverdicts := map_verdict_denies o hnegated hitems
    refine ⟨fun hwhole hb => ?_, fun hwhole hb => ?_⟩
    · have hmeta : IsMeta [.word "all", .group d inner] :=
        (isHead_ident (i := .plain "all") rfl).isMeta d inner
      rw [enabled_singleton ha, enabled_singleton hb, hwhole.verdict_eq o hmeta,
        verdict_all o d hjoins hitems, verdict_any o d' hjoins' hmetas, hverdicts, Verdict.not_all]
    · have hmeta : IsMeta [.word "any", .group d inner] :=
        (isHead_ident (i := .plain "any") rfl).isMeta d inner
      rw [enabled_singleton ha, enabled_singleton hb, hwhole.verdict_eq o hmeta,
        verdict_any o d hjoins hitems, verdict_all o d' hjoins' hmetas, hverdicts, Verdict.not_any]

end Options

/-- An attribute `cfg` with the tokens between its brackets. -/
def cfgOf (ts : List Token) : Attribute := ⟨false, .list (.ofIdent (.plain "cfg")) .paren ts⟩

theorem isCfg_cfgOf (ts : List Token) : Options.IsCfg (cfgOf ts) ts := ⟨rfl, rfl⟩

/-- An option, and a `not` without anything to deny. -/
def unixAndNot : List (List Token) := [[.word "unix"], [.word "not", .paren []]]

theorem isMeta_of_mem_unixAndNot : ∀ item ∈ unixAndNot, IsMeta item := by
  have hunix : IsMeta [.word "unix"] := by
    obtain ⟨m, hread⟩ := (Spells.option (i := .plain "unix") rfl).exists_readAs
    have hmeta := Meta.ofTokens?_of_reads fun g => ⟨_, hread.reads g [] trivial⟩
    rw [List.append_nil] at hmeta
    exact Option.isSome_iff_exists.mpr ⟨m, hmeta⟩
  have hnot : IsMeta [.word "not", .paren []] := (isHead_ident (i := .plain "not") rfl).isMeta _ _
  exact List.forall_mem_cons.mpr ⟨hunix, List.forall_mem_singleton.mpr hnot⟩

theorem Options.enabled_laws_unixAndNot :
    none.enabled [cfgOf [.word "not", .paren []], ⟨false, .path (.ofIdent (.plain "inline"))⟩,
        cfgOf [.word "unix"]] =
      none.enabled [cfgOf [.word "all", .paren [.word "unix", .punct ',' false, .word "not",
        .paren [], .punct ',' false]]] ∧
    none.enabled [cfgOf [.word "any", .paren [.word "unix", .punct ',' false, .word "not",
        .paren []]]] =
      none.enabled [cfgOf [.word "any", .paren [.word "not", .paren [], .punct ',' false,
        .word "unix", .punct ',' false, .word "unix"]]] ∧
    none.enabled [cfgOf [.word "not", .paren [.word "all", .paren [.word "unix", .punct ',' false,
        .word "not", .paren []]]]] =
      none.enabled [cfgOf [.word "any", .paren [.word "not", .paren [.word "unix"], .punct ',' false,
        .word "not", .paren [.word "not", .paren []]]]] := by
  obtain ⟨hstacked, hrearranged, hnegated⟩ := enabled_laws none
  have hjoins : Joins unixAndNot [.word "unix", .punct ',' false, .word "not", .paren []] :=
    .more [.word "unix"] false (.last _)
  refine ⟨?_, ?_, ?_⟩
  · refine hstacked _ unixAndNot _ _ _ isMeta_of_mem_unixAndNot ?_ ?_ (isCfg_cfgOf _)
    · exact .more [.word "unix"] false (.more [.word "not", .paren []] false .nil)
    · exact .swap _ _ _
  · refine hrearranged _ _ _ _ ?_ (isCfg_cfgOf _) (isCfg_cfgOf _)
    have hmem (item : List Token) : item ∈ unixAndNot ↔
        item ∈ [[.word "not", .paren []], [.word "unix"], [.word "unix"]] := by
      simp [unixAndNot, or_comm]
    refine .arguments (.inr rfl) .paren .paren hjoins ?_ isMeta_of_mem_unixAndNot hmem
    exact .more [.word "not", .paren []] false (.more [.word "unix"] false (.last _))
  · have hdenies (item : List Token) : Denies [.word "not", .paren item] item :=
      ⟨.paren, item, .last item, rfl⟩
    refine (hnegated unixAndNot _ _ _ .paren .paren _ _ _ isMeta_of_mem_unixAndNot
      (.cons (hdenies _) (.cons (hdenies _) .nil)) hjoins ?_ (isCfg_cfgOf _)).1 (hdenies _)
      (isCfg_cfgOf _)
    exact .more [.word "not", .paren [.word "unix"]] false (.last _)

end EnumCatalog.Cfg
