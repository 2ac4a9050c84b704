import EnumCatalog.Proofs.NamePath
import EnumCatalog.Proofs.Site

/-!
# What readers answer

Some things are known of a syntax tree because of how it was read. Here it is told which attributes
belong to what encloses them: those at the start of a file do, and those in front of a module do not
(`SourceFile.ensures_of_parse?`). An attribute is read together with its mark, so this
holds at the leaves, and the rules of the grammar hand the attributes on. The same goes for names:
what an enum or a module is called can be written as an identifier, with a raw mark if need be
(`SourceFile.allHaveNames_of_parse?`).

What a reader answers whenever it does is a postcondition of it (`Reader.Ensures`). The combinators
each have a rule, and a reader is gone through along its steps.
-/

set_option autoImplicit false

namespace EnumCatalog

/-- A name can be raw, or it is not reserved. -/
theorem Ident.not_mem_neverRaw_of_isName {i : Ident} (h : i.isName = true) : i.name ∉ neverRaw := by
  intro hmem
  cases hraw : i.raw with
  | true =>
    have hcan := i.canBeRaw
    rw [hraw, List.contains_iff_mem.mpr hmem] at hcan
    cases hcan
  | false =>
    have hreserved : neverRaw ⊆ reservedWords := by decide
    rw [isName, hraw, List.contains_iff_mem.mpr (hreserved hmem)] at h
    cases h

namespace Syntax

/-! ## 1. Postconditions -/

namespace Reader

variable {α β : Type} {r : Reader α} {P : α → Prop} {Q : β → Prop}

/-- Whatever the reader answers, it satisfies the condition. -/
def Ensures (r : Reader α) (P : α → Prop) : Prop := ∀ c a c', r c = some (a, c') → P a

theorem ensures_true (r : Reader α) : Ensures r fun _ => True := fun _ _ _ _ => trivial

theorem ensures_pure {a : α} (h : P a) : Ensures (pure a) P := by
  intro c b c' hb
  obtain ⟨rfl, -⟩ := Prod.mk.inj (Option.some.inj hb)
  exact h

theorem ensures_failure : Ensures (failure : Reader α) P := by
  intro c a c' h
  cases h

theorem Ensures.bind {f : α → Reader β} (hr : Ensures r P) (hf : ∀ a, P a → Ensures (f a) Q) :
    Ensures (r >>= f) Q := by
  intro c b c' h
  obtain ⟨⟨a, c₁⟩, ha, hb⟩ := Option.bind_eq_some_iff.mp h
  exact hf a (hr c a c₁ ha) c₁ b c' hb

theorem ensures_bind {f : α → Reader β} (hf : ∀ a, Ensures (f a) Q) : Ensures (r >>= f) Q :=
  (ensures_true r).bind fun a _ => hf a

theorem Ensures.map {f : α → β} (hr : Ensures r fun a => Q (f a)) : Ensures (f <$> r) Q := by
  rw [map_eq_pure_bind]
  exact hr.bind fun a ha => ensures_pure ha

theorem Ensures.captured (hr : Ensures r P) : Ensures (captured r) fun x => P x.1 := by
  intro c x c' h
  unfold Reader.captured at h
  cases hrun : r ⟨c.rest, [], []⟩ with
  | none => rw [hrun] at h; cases h
  | some result =>
    rw [hrun] at h
    obtain ⟨rfl, -⟩ := Prod.mk.inj (Option.some.inj h)
    exact hr _ _ _ hrun

theorem Ensures.silent (hr : Ensures r P) : Ensures (silent r) P :=
  hr.captured.bind fun _ hx => ensures_pure hx

theorem Ensures.printing {fragment : α → Fragment} (hr : Ensures r P) :
    Ensures (printing fragment r) P :=
  hr.silent.bind fun _ ha => ensures_bind fun _ => ensures_pure ha

theorem Ensures.inGroup {d : Delimiter} (hr : Ensures r P) : Ensures (inGroup d r) P := by
  unfold Reader.inGroup
  refine ensures_bind fun t => ?_
  split
  case h_1 d' inner =>
    refine ensures_bind fun _ => ?_
    split
    case h_1 a c hrun =>
      exact ensures_bind fun _ => ensures_bind fun _ => ensures_pure (hr _ _ _ hrun)
    case h_2 => exact ensures_failure
  case h_2 => exact ensures_failure

/-- What is collected satisfies the condition one by one. -/
theorem Ensures.collect {r : Reader (Option α)} (hr : Ensures r fun a? => ∀ a ∈ a?, P a) :
    Ensures (collect r) fun as => ∀ a ∈ as, P a := by
  refine ensures_bind fun ts => ?_
  generalize ts.length + 1 = n
  induction n with
  | zero => exact ensures_failure
  | succ n ih =>
    refine hr.bind fun a? ha => ?_
    cases a? with
    | none => exact ensures_pure fun a h => by cases h
    | some a =>
      exact ih.bind fun as has => ensures_pure (List.forall_mem_cons.mpr ⟨ha a rfl, has⟩)

theorem Ensures.untilEnd (hr : Ensures r P) : Ensures (untilEnd r) fun as => ∀ a ∈ as, P a := by
  refine Ensures.collect (ensures_bind fun stop => ?_)
  split
  · exact ensures_pure fun a h => by cases h
  · exact hr.bind fun a ha => ensures_pure fun b hb => Option.some.inj hb ▸ ha

/-- The items of a list satisfy the condition, and after no item there is no comma. -/
theorem Ensures.commaList (hr : Ensures r P) : Ensures (commaList r) fun x =>
    (∀ a ∈ x.1, P a) ∧ (x.1 = [] → x.2 = false) := by
  have hitem : ∀ a, P a → ∀ b : Bool, Ensures (pure (some (a, b)) : Reader (Option (α × Bool)))
      fun item? => ∀ item ∈ item?, P item.1 :=
    fun a ha b => ensures_pure fun item hitem => Option.some.inj hitem ▸ ha
  refine Ensures.bind (P := fun items : List (α × Bool) => ∀ item ∈ items, P item.1)
    (Ensures.collect (ensures_bind fun stop => ?_)) fun items hitems => ensures_pure ⟨?_, ?_⟩
  · split
    · exact ensures_pure fun item h => by cases h
    · refine hr.bind fun a ha => ensures_bind fun last => ?_
      split
      · exact hitem a ha false
      · exact ensures_bind fun _ => hitem a ha true
  · intro a ha
    obtain ⟨item, hmem, rfl⟩ := List.mem_map.mp ha
    exact hitems item hmem
  · intro hnil
    rw [List.map_eq_nil_iff.mp hnil]
    rfl

/-- A reader may go by what is ahead. -/
theorem ensures_sees_bind {test : List Token → Bool} {k : Bool → Reader β}
    (hyes : ∀ c b c', test c.rest = true → k true c = some (b, c') → Q b)
    (hno : Ensures (k false) Q) : Ensures (sees test >>= k) Q := by
  intro c b c' h
  change k (test c.rest) c = some (b, c') at h
  cases htest : test c.rest with
  | true => exact hyes c b c' htest (htest ▸ h)
  | false => exact hno c b c' (htest ▸ h)

theorem ensures_ahead_bind {k : List Token → Reader β}
    (h : ∀ c b c', k c.rest c = some (b, c') → Q b) : Ensures (ahead >>= k) Q := by
  intro c b c' hk
  exact h c b c' hk

theorem rest_of_anyIdent {c c' : Cursor} {i : Ident} (h : anyIdent c = some (i, c')) :
    c.rest = .ident i :: c'.rest := by
  obtain ⟨rest, printed, mentioned⟩ := c
  cases rest with
  | nil => cases h
  | cons t rest =>
    cases t with
    | ident j =>
      cases h
      rfl
    | _ => cases h

theorem eq_of_require {b : Bool} {u : Unit} {c c' : Cursor} (h : require b c = some (u, c')) :
    b = true ∧ c' = c := by
  cases b with
  | true =>
    cases h
    exact ⟨rfl, rfl⟩
  | false => cases h

/-- An identifier that passes a test and is read was ahead. -/
theorem rest_of_require {test : List Token → Bool} {c c' : Cursor} {i : Ident}
    (h : (do require (test (← ahead)); anyIdent) c = some (i, c')) :
    c.rest = .ident i :: c'.rest ∧ test (.ident i :: c'.rest) = true := by
  change (require (test c.rest) >>= fun _ => anyIdent) c = some (i, c') at h
  obtain ⟨⟨_, c₁⟩, hrequire, hident⟩ := Option.bind_eq_some_iff.mp h
  obtain ⟨htest, rfl⟩ := eq_of_require hrequire
  have hrest := rest_of_anyIdent hident
  rw [hrest] at htest
  exact ⟨hrest, htest⟩

/-- A name that is read was ahead. -/
theorem rest_of_name {c c' : Cursor} {i : Ident} (h : name c = some (i, c')) :
    c.rest = .ident i :: c'.rest ∧ i.isName = true := rest_of_require h

theorem ensures_name : Ensures name fun i => i.isName = true := by
  intro c i c' h
  exact (rest_of_name h).2

/-- What is read in brackets is all that is in the brackets ahead. -/
theorem exists_of_inGroup {d : Delimiter} {c c' : Cursor} {a : α}
    (h : inGroup d r c = some (a, c')) :
    ∃ inner, c.rest = .group d inner :: c'.rest ∧ r.run? inner = some a := by
  obtain ⟨ts, printed, mentioned⟩ := c
  cases ts with
  | nil => cases h
  | cons t ts =>
    cases t with
    | group d' inner =>
      obtain ⟨⟨_, c₁⟩, hrequire, hrest⟩ := Option.bind_eq_some_iff.mp
        (show (require (d == d') ⟨ts, printed, mentioned⟩).bind _ = some (a, c') from h)
      obtain ⟨hd, rfl⟩ := eq_of_require hrequire
      obtain rfl := beq_iff_eq.mp hd
      refine ⟨inner, ?_⟩
      cases hrun : StateT.run r (start inner) with
      | none =>
        rw [hrun] at hrest
        cases hrest
      | some result =>
        rw [hrun] at hrest
        obtain ⟨⟨_, c₂⟩, hrequire, hemit⟩ := Option.bind_eq_some_iff.mp hrest
        obtain ⟨hend, rfl⟩ := eq_of_require hrequire
        cases hemit
        unfold Reader.run?
        rw [hrun]
        exact ⟨rfl, if_pos hend⟩
    | _ => cases h

/-- What a whole token stream is read as satisfies the condition. -/
theorem Ensures.of_run? (hr : Ensures r P) {ts : List Token} {a : α} (h : r.run? ts = some a) :
    P a := by
  unfold Reader.run? at h
  split at h
  case h_1 b c hrun =>
    split at h
    · rw [← Option.some.inj h]
      exact hr _ _ _ hrun
    · cases h
  case h_2 => cases h

end Reader

open Reader

/-! ## 2. Paths and attributes -/

theorem Path.ensures_readIdent : Ensures readIdent fun i => i.isSegment = true := by
  intro c i c' h
  exact (rest_of_require h).2

/-- A path that is read without arguments is one of names. -/
theorem Path.ensures_readPlain : Ensures readPlain fun p => ∃ q : NamePath, p = q.toPath := by
  refine Ensures.printing (ensures_bind fun leading => ?_)
  refine ensures_readIdent.bind fun first hfirst => ?_
  refine Ensures.bind (P := fun is => ∀ i ∈ is, i.isSegment = true) (Ensures.collect ?_) ?_
  · refine ensures_bind fun more => ?_
    split
    · exact ensures_readIdent.bind fun i hi => ensures_pure fun j hj => Option.some.inj hj ▸ hi
    · exact ensures_pure fun i h => by cases h
  · intro others hothers
    exact ensures_pure ⟨⟨leading, first, others, List.forall_mem_cons.mpr ⟨hfirst, hothers⟩⟩, rfl⟩

/-- What is said is named by a path of names, or by the one word that may be reserved. -/
def Meta.HasName (m : Meta) : Prop :=
  (∃ q : NamePath, m.name = q.toPath) ∨ ∃ i, i.isWord "unsafe" = true ∧ m.name = .ofIdent i

theorem Meta.ensures_readAfter (expr : Reader Unit) (p : Path) :
    Ensures (readAfter expr p) fun m => m.name = p := by
  refine ensures_bind fun ts => ?_
  split
  · exact ensures_bind fun _ => ensures_pure rfl
  split
  · refine ensures_bind fun _ => ensures_bind fun _ => ?_
    split
    · exact ensures_bind fun _ => ensures_pure rfl
    · exact ensures_bind fun _ => ensures_bind fun _ => ensures_pure rfl
  · exact ensures_pure rfl

theorem Meta.ensures_read (expr : Reader Unit) : Ensures (read expr) HasName := by
  refine Ensures.printing (ensures_sees_bind ?_ ?_)
  · intro c m c' hunsafe h
    obtain ⟨⟨i, c₁⟩, hident, h⟩ := Option.bind_eq_some_iff.mp h
    rw [rest_of_anyIdent hident] at hunsafe
    exact .inr ⟨i, hunsafe, ensures_readAfter expr _ c₁ m c' h⟩
  · refine Path.ensures_readPlain.bind fun p hp c m c' h => ?_
    obtain ⟨q, rfl⟩ := hp
    exact .inl ⟨q, ensures_readAfter expr _ c m c' h⟩

/-- What is known of an attribute in front of something, or at its start. -/
structure Attribute.WasRead (inner : Bool) (a : Attribute) : Prop where
  inner : a.inner = inner
  name : a.content.HasName

theorem Attribute.ensures_readBracket (expr : Reader Unit) (inner : Bool) :
    Ensures (readBracket expr inner) (WasRead inner) :=
  (Meta.ensures_read expr).inGroup.bind fun _ hm => ensures_pure ⟨rfl, hm⟩

theorem Attribute.ensures_readOuter (expr : Reader Unit) :
    Ensures (readOuter expr) fun as => ∀ a ∈ as, a.WasRead false := by
  refine Ensures.collect (ensures_bind fun found => ?_)
  split
  · refine Ensures.map (Ensures.printing (ensures_bind fun _ => ?_))
    exact fun c a c' h b hb => Option.some.inj hb ▸ ensures_readBracket expr false c a c' h
  · exact ensures_pure fun a h => by cases h

theorem Attribute.ensures_readInner (expr : Reader Unit) :
    Ensures (readInner expr) fun as => ∀ a ∈ as, a.WasRead true := by
  refine Ensures.collect (ensures_bind fun ts => ?_)
  split
  · refine Ensures.map (Ensures.printing (ensures_bind fun _ => ensures_bind fun _ => ?_))
    exact fun c a c' h b hb => Option.some.inj hb ▸ ensures_readBracket expr true c a c' h
  · exact ensures_pure fun a h => by cases h

/-! ## 3. Enums -/

/-- The words that may stand alone between the parentheses of a visibility. -/
def Visibility.words : List String := ["crate", "self", "super"]

/-- The path of a restriction is one of names, and a single word where it is written as one. -/
def Visibility.WasRead : Visibility → Prop
  | .within true p => ∃ q : NamePath, p = q.toPath
  | .within false p => ∃ i, words.any i.isWord = true ∧ p = .ofIdent i
  | _ => True

theorem Visibility.ensures_read : Ensures read WasRead := by
  refine Ensures.printing (ensures_bind fun isPublic => ?_)
  split
  · refine ensures_ahead_bind fun c vis c' h => ?_
    generalize hts : c.rest = ts at h
    -- A group after `pub` holds a path after `in`, or one word, or belongs to what follows.
    split at h
    · next inner rest =>
      split at h
      · refine Ensures.inGroup (ensures_bind fun _ => ?_) c vis c' h
        exact Path.ensures_readPlain.bind fun p hp => ensures_pure hp
      split at h
      · next hword =>
        obtain ⟨inner', hrest, hrun⟩ := exists_of_inGroup h
        obtain ⟨hgroup, -⟩ := List.cons.inj (hts.symm.trans hrest)
        cases hgroup
        obtain ⟨hword, hend⟩ := Bool.and_eq_true_iff.mp hword
        obtain ⟨i, hinner⟩ : ∃ i, inner = [.ident i] := by
          match inner with
          | [.ident i] => exact ⟨i, rfl⟩
          | [] => cases hword
          | .ident _ :: _ :: _ => cases hend
          | .lifetime _ :: _ | .punct _ _ :: _ | .literal _ :: _ | .group _ _ :: _ => cases hword
        subst hinner
        cases hrun
        exact ⟨i, hword, rfl⟩
      · exact ensures_pure trivial c vis c' h
    · exact ensures_pure trivial c vis c' h
  · exact ensures_pure trivial

/-- What is known of a variant because it was read. -/
structure Variant.WasRead (v : Variant) : Prop where
  attrs : ∀ a ∈ v.attrs, a.WasRead false
  ident : v.ident.isName = true

/-- What is known of an enum because it was read. -/
structure Enum.WasRead (e : Enum) : Prop where
  attrs : ∀ a ∈ e.attrs, a.WasRead false
  vis : e.vis.WasRead
  ident : e.ident.isName = true
  generics : e.generics.isEmpty = true → e.generics = .empty
  whereClause : e.whereClause = .empty ∨ ∃ f, e.whereClause = .plain [.word "where"] ++ f
  variants : ∀ v ∈ e.variants, v.WasRead
  trailing : e.variants = [] → e.trailing = false

namespace Grammar

theorem ensures_generics (g : Grammar) :
    Ensures g.generics fun f => f.isEmpty = true → f = .empty := by
  refine Ensures.printing (ensures_bind fun found => ?_)
  split
  · refine ensures_bind fun _ => ensures_bind fun x => ensures_bind fun _ => ?_
    split
    · exact ensures_pure fun _ => rfl
    · exact ensures_pure fun h => by cases h
  · exact ensures_pure fun _ => rfl

theorem ensures_whereClause (g : Grammar) : Ensures g.whereClause fun f =>
    f = .empty ∨ ∃ f', f = .plain [.word "where"] ++ f' := by
  refine Ensures.printing (ensures_bind fun found => ?_)
  split
  · refine ensures_bind fun ⟨_, f⟩ => ?_
    show Ensures (if f.isEmpty then pure .empty else pure (.plain [.word "where"] ++ f)) _
    split
    · exact ensures_pure (Or.inl rfl)
    · exact ensures_pure (Or.inr ⟨f, rfl⟩)
  · exact ensures_pure (Or.inl rfl)

theorem ensures_variant (g : Grammar) : Ensures g.variant Variant.WasRead := by
  refine Ensures.printing ((Attribute.ensures_readOuter g.value).bind fun attrs hattrs => ?_)
  refine ensures_bind fun _ => ensures_name.bind fun ident hident => ensures_bind fun ts => ?_
  -- The fields are read in one of three ways, and all go on alike.
  have rest (fields : Fields) : Ensures (do
      let discriminant ←
        if ← op? "=" then pure (some (← captured g.value).2) else pure none
      return ⟨attrs, ident, fields, discriminant⟩) Variant.WasRead := by
    refine ensures_bind fun found => ?_
    split
    · exact ensures_bind fun _ => ensures_bind fun _ => ensures_pure ⟨hattrs, hident⟩
    · exact ensures_bind fun _ => ensures_pure ⟨hattrs, hident⟩
  dsimp only
  split
  · exact ensures_bind fun _ => ensures_bind fun fields => rest fields
  split
  · exact ensures_bind fun _ => ensures_bind fun fields => rest fields
  · exact ensures_bind fun fields => rest fields

end Grammar

/-! ## 4. Items -/

namespace Item

mutual

/-- Attributes on modules without a body, here and within modules in braces, do not belong to what
encloses them. -/
def HasOuterHeads : Item → Prop
  | .fileModule h => ∀ a ∈ h.attrs, a.inner = false
  | .inlineModule _ items => AllHaveOuterHeads items
  | _ => True

@[inherit_doc HasOuterHeads]
def AllHaveOuterHeads : List Item → Prop
  | [] => True
  | i :: rest => i.HasOuterHeads ∧ AllHaveOuterHeads rest

end

theorem allHaveOuterHeads_iff {items : List Item} :
    AllHaveOuterHeads items ↔ ∀ i ∈ items, i.HasOuterHeads := by
  induction items with
  | nil => simp [AllHaveOuterHeads]
  | cons i items ih => rw [AllHaveOuterHeads, ih, List.forall_mem_cons]

theorem AllHaveOuterHeads.of_fill {s : Site} {xs : List Item} (h : AllHaveOuterHeads (s.fill xs)) :
    AllHaveOuterHeads xs := by
  induction s with
  | here before after =>
    rw [allHaveOuterHeads_iff] at h ⊢
    exact fun i hi => h i (List.mem_append_left _ (List.mem_append_right _ hi))
  | within before head s after ih =>
    rw [allHaveOuterHeads_iff] at h
    refine ih ?_
    have hmodule := h (.inlineModule head (s.fill xs)) (List.mem_append_right _ List.mem_cons_self)
    rw [HasOuterHeads] at hmodule
    exact hmodule

mutual

/-- Enums and modules, here and within modules in braces, are called what can be written as an
identifier, with a raw mark if need be. -/
def HasNames : Item → Prop
  | .enum e => e.ident.name ∉ neverRaw
  | .fileModule h => h.ident.name ∉ neverRaw
  | .inlineModule h items => h.ident.name ∉ neverRaw ∧ AllHaveNames items
  | _ => True

@[inherit_doc HasNames]
def AllHaveNames : List Item → Prop
  | [] => True
  | i :: rest => i.HasNames ∧ AllHaveNames rest

end

theorem allHaveNames_iff {items : List Item} : AllHaveNames items ↔ ∀ i ∈ items, i.HasNames := by
  induction items with
  | nil => simp [AllHaveNames]
  | cons i items ih => rw [AllHaveNames, ih, List.forall_mem_cons]

theorem AllHaveNames.of_fill {s : Site} {xs : List Item} (h : AllHaveNames (s.fill xs)) :
    (∀ head ∈ s.heads, head.ident.name ∉ neverRaw) ∧ AllHaveNames xs := by
  induction s with
  | here before after =>
    rw [allHaveNames_iff] at h ⊢
    exact ⟨fun head hmem => absurd hmem List.not_mem_nil,
      fun i hi => h i (List.mem_append_left _ (List.mem_append_right _ hi))⟩
  | within before head s after ih =>
    rw [allHaveNames_iff] at h
    have hmodule := h (.inlineModule head (s.fill xs)) (List.mem_append_right _ List.mem_cons_self)
    rw [HasNames] at hmodule
    obtain ⟨hheads, hxs⟩ := ih hmodule.2
    exact ⟨List.forall_mem_cons.mpr ⟨hmodule.1, hheads⟩, hxs⟩

end Item

namespace Grammar

/-- What holds of a module by its attributes and its name, and by the items within it. -/
theorem ensures_moduleAfter_of {g : Grammar} {P : Item → Prop} {attrs : List Attribute}
    {vis : Visibility} (hg : Ensures g.item P)
    (hfile : ∀ isUnsafe ident, ident.name ∉ neverRaw →
      P (.fileModule ⟨attrs, vis, isUnsafe, ident⟩))
    (hinline : ∀ inner isUnsafe ident items, ident.name ∉ neverRaw → (∀ i ∈ items, P i) →
      P (.inlineModule ⟨attrs ++ inner, vis, isUnsafe, ident⟩ items)) :
    Ensures (g.moduleAfter attrs vis) P := by
  -- The name is read in one of two ways, and both go on alike.
  have rest (isUnsafe : Bool) (ident : Ident) (hident : ident.name ∉ neverRaw) : Ensures (do
      if ← op? ";" then return .fileModule ⟨attrs, vis, isUnsafe, ident⟩
      else
        let x ← inGroup .brace do
          let inner ← g.innerAttrs
          return (inner, ← untilEnd g.item)
        return .inlineModule ⟨attrs ++ x.1, vis, isUnsafe, ident⟩ x.2) P := by
    refine ensures_bind fun ends => ?_
    split
    · exact ensures_pure (hfile isUnsafe ident hident)
    · refine Ensures.bind (P := fun x => ∀ i ∈ x.2, P i)
        (Ensures.inGroup (ensures_bind fun inner => ?_)) fun x hx => ?_
      · exact hg.untilEnd.bind fun items hitems => ensures_pure hitems
      · exact ensures_pure (hinline x.1 isUnsafe ident x.2 hident hx)
  unfold moduleAfter
  refine ensures_bind fun isUnsafe => ensures_bind fun _ => ensures_sees_bind ?_ ?_
  · intro c i c' htry h
    obtain ⟨⟨ident, c₁⟩, hident, h⟩ := Option.bind_eq_some_iff.mp h
    rw [rest_of_anyIdent hident] at htry
    refine rest isUnsafe ident (fun hmem => ?_) c₁ i c' h
    rw [beq_iff_eq.mp (Bool.and_eq_true_iff.mp htry).2] at hmem
    revert hmem
    decide
  · exact ensures_name.bind fun ident hname => rest isUnsafe ident
      (Ident.not_mem_neverRaw_of_isName hname)

theorem ensures_enumAfter {g : Grammar} {attrs : List Attribute} {vis : Visibility}
    (hattrs : ∀ a ∈ attrs, a.WasRead false) (hvis : vis.WasRead) :
    Ensures (g.enumAfter attrs vis) Enum.WasRead := by
  unfold enumAfter
  refine ensures_bind fun _ => ensures_name.bind fun ident hident => ?_
  refine g.ensures_generics.bind fun generics hgenerics => ?_
  refine g.ensures_whereClause.bind fun whereClause hwhere => ?_
  refine g.ensures_variant.commaList.inGroup.bind fun x hx => ensures_pure ?_
  exact ⟨hattrs, hvis, hident, hgenerics, hwhere, hx.1, hx.2⟩

/-- What holds of an item by its attributes and its name, and by the items within it. -/
theorem ensures_anyItem_of {g : Grammar} {P : Item → Prop}
    (hmodule : ∀ attrs vis, (∀ a ∈ attrs, a.inner = false) → Ensures (g.moduleAfter attrs vis) P)
    (henum : ∀ e : Enum, e.WasRead → P (.enum e)) (huse : ∀ u, P (.use u))
    (hcrate : ∀ x, P (.externCrate x)) (hother : ∀ f, P (.other f)) : Ensures g.anyItem P := by
  unfold anyItem
  refine Ensures.printing (ensures_bind fun start => ?_)
  refine (Attribute.ensures_readOuter g.value).captured.bind fun attrs hattrs => ?_
  refine Visibility.ensures_read.captured.bind fun vis hvis => ensures_bind fun ts => ?_
  dsimp only
  -- One kind of item after the other, in the order of the rule.
  split
  · exact (ensures_enumAfter hattrs hvis).bind fun e he => ensures_pure (henum e he)
  split
  · refine ensures_bind fun u? => ?_
    split
    · exact ensures_pure (huse _)
    · exact ensures_bind fun _ => ensures_pure (hother _)
  split
  · exact ensures_bind fun x => ensures_pure (hcrate x)
  split
  · exact hmodule _ _ fun a ha => (hattrs a ha).inner
  split
  · refine ensures_bind fun x => ?_
    split
    · exact ensures_pure (hother _)
    · exact ensures_bind fun _ => ensures_pure (hother _)
  · exact ensures_failure

/-- What every level of the grammar hands on holds of the items that it reads. -/
theorem ensures_item_ofDepth_of {P : Item → Prop}
    (h : ∀ g : Grammar, Ensures g.item P → Ensures g.anyItem P) (n : Nat) :
    Ensures (ofDepth n).item P := by
  induction n with
  | zero => exact ensures_failure
  | succ n ih => exact h _ ih

theorem ensures_hasOuterHeads (n : Nat) : Ensures (ofDepth n).item Item.HasOuterHeads := by
  refine ensures_item_ofDepth_of (fun g hg => ensures_anyItem_of (fun attrs vis hattrs => ?_)
    ?_ ?_ ?_ ?_) n
  · refine ensures_moduleAfter_of hg (fun isUnsafe ident _ => ?_)
      fun inner isUnsafe ident items _ hitems => ?_
    · rw [Item.HasOuterHeads]
      exact hattrs
    · rw [Item.HasOuterHeads]
      exact Item.allHaveOuterHeads_iff.mpr hitems
  all_goals simp [Item.HasOuterHeads]

theorem ensures_hasNames (n : Nat) : Ensures (ofDepth n).item Item.HasNames := by
  refine ensures_item_ofDepth_of (fun g hg => ensures_anyItem_of (fun attrs vis _ => ?_)
    ?_ ?_ ?_ ?_) n
  · refine ensures_moduleAfter_of hg (fun isUnsafe ident hident => ?_)
      fun inner isUnsafe ident items hident hitems => ?_
    · rw [Item.HasNames]
      exact hident
    · rw [Item.HasNames]
      exact ⟨hident, Item.allHaveNames_iff.mpr hitems⟩
  · intro e he
    rw [Item.HasNames]
    exact Ident.not_mem_neverRaw_of_isName he.ident
  all_goals simp [Item.HasNames]

theorem ensures_enumWasRead (n : Nat) :
    Ensures (ofDepth n).item fun i => ∀ e, i = .enum e → e.WasRead := by
  refine ensures_item_ofDepth_of (fun g hg => ensures_anyItem_of (fun attrs vis _ => ?_)
    ?_ ?_ ?_ ?_) n
  · exact ensures_moduleAfter_of hg (fun isUnsafe ident _ => by simp)
      fun inner isUnsafe ident items _ _ => by simp
  · intro e he e' heq
    cases heq
    exact he
  all_goals simp

end Grammar

/-- What is known of an enum because tokens were read as it. -/
theorem Enum.wasRead_of_ofTokens? {ts : List Token} {e : Enum}
    (h : Item.ofTokens? ts = some (.enum e)) : e.WasRead :=
  (Grammar.ensures_enumWasRead _).of_run? h e rfl

/-! ## 5. Source files -/

/-- What is known of a source file because it was read. -/
theorem SourceFile.ensures_of_parse? {text : String} {f : SourceFile} (h : parse? text = some f) :
    (∀ a ∈ f.attrs, a.inner = true) ∧ Item.AllHaveOuterHeads f.items := by
  obtain ⟨ts, -, hread⟩ := Option.bind_eq_some_iff.mp h
  refine Ensures.of_run? (P := fun f : SourceFile =>
    (∀ a ∈ f.attrs, a.inner = true) ∧ Item.AllHaveOuterHeads f.items) ?_ hread
  refine (Attribute.ensures_readInner _).bind fun attrs hattrs => ?_
  refine (Grammar.ensures_hasOuterHeads _).untilEnd.bind fun items hitems => ensures_pure ?_
  exact ⟨fun a ha => (hattrs a ha).inner, Item.allHaveOuterHeads_iff.mpr hitems⟩

theorem SourceFile.allHaveNames_of_parse? {text : String} {f : SourceFile}
    (h : parse? text = some f) : Item.AllHaveNames f.items := by
  obtain ⟨ts, -, hread⟩ := Option.bind_eq_some_iff.mp h
  refine Ensures.of_run? (P := fun f : SourceFile => Item.AllHaveNames f.items) ?_ hread
  refine ensures_bind fun attrs => ?_
  refine (Grammar.ensures_hasNames _).untilEnd.bind fun items hitems => ensures_pure ?_
  exact Item.allHaveNames_iff.mpr hitems

end Syntax

end EnumCatalog
