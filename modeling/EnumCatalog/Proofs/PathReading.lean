import EnumCatalog.Proofs.Attributes
import EnumCatalog.Proofs.Parsing

/-!
# Paths, read backward

What stands in a text that was read as a path. If no segment has generic arguments, then these are
names with double colons between them, and perhaps in front, and nothing else
(`Path.spelled_of_run?`).
An attribute reads the same path from the same tokens (`Path.Spelled.reads_readPlain`), with one
exception: the word `try` can be a segment of a path in a type, but not of the path of an attribute
(`Path.Spelled.fails_readPlain`).
-/

set_option autoImplicit false

namespace EnumCatalog.Syntax

open Reader

/-! ## 1. Steps, followed backward -/

namespace Reader

variable {α β : Type} {r : Reader α} {k : α → Reader β} {c c' : Cursor} {a : α} {b : β}

theorem of_bind (h : (r >>= k) c = some (b, c')) :
    ∃ a c₁, r c = some (a, c₁) ∧ k a c₁ = some (b, c') := by
  obtain ⟨⟨a, c₁⟩, hr, hk⟩ := Option.bind_eq_some_iff.mp h
  exact ⟨a, c₁, hr, hk⟩

theorem ahead_bind (k : List Token → Reader β) (c : Cursor) : (ahead >>= k) c = k c.rest c := rfl

theorem sees_bind (test : List Token → Bool) (k : Bool → Reader β) (c : Cursor) :
    (sees test >>= k) c = k (test c.rest) c := rfl

theorem of_require {x : Bool} {u : Unit} (h : require x c = some (u, c')) : x = true ∧ c' = c := by
  cases x with
  | true => cases h; exact ⟨rfl, rfl⟩
  | false => cases h

theorem rest_of_printing {φ : α → Fragment} (h : printing φ r c = some (a, c')) :
    ∃ c₁, r ⟨c.rest, [], []⟩ = some (a, c₁) ∧ c'.rest = c₁.rest := by
  obtain ⟨a₁, c₂, hsilent, h⟩ := of_bind h
  cases h
  obtain ⟨⟨a₂, f⟩, c₃, hcaptured, hsilent⟩ := of_bind hsilent
  cases hsilent
  unfold captured at hcaptured
  split at hcaptured
  · next c₁ hr =>
    cases hcaptured
    exact ⟨c₁, hr, rfl⟩
  · cases hcaptured

/-- Two colons, the first touching the second. -/
def colons (joint : Bool) : List Token := [.punct ':' true, .punct ':' joint]

theorem atOp_colons (joint : Bool) (ts : List Token) : atOp "::" (colons joint ++ ts) = true := by
  cases joint <;> rfl

theorem eq_of_atOp_colons {ts : List Token} (h : atOp "::" ts = true) :
    ∃ j, ts = colons j ++ ts.drop 2 := by
  match ts, h with
  | [], h => cases h
  | .punct d true :: [], h => simp [atOp, atChars] at h
  | .punct d true :: .punct d' j :: rest, h =>
    have hchars : (':' == d && ':' == d') = true := h
    rw [Bool.and_eq_true, beq_iff_eq, beq_iff_eq] at hchars
    obtain ⟨rfl, rfl⟩ := hchars
    exact ⟨j, rfl⟩
  | .punct d true :: .ident _ :: _, h => simp [atOp, atChars] at h
  | .punct d true :: .lifetime _ :: _, h => simp [atOp, atChars] at h
  | .punct d true :: .literal _ :: _, h => simp [atOp, atChars] at h
  | .punct d true :: .group _ _ :: _, h => simp [atOp, atChars] at h
  | .punct d false :: _, h => simp [atOp, atChars] at h
  | .ident _ :: _, h => simp [atOp, atChars] at h
  | .lifetime _ :: _, h => simp [atOp, atChars] at h
  | .literal _ :: _, h => simp [atOp, atChars] at h
  | .group _ _ :: _, h => simp [atOp, atChars] at h

/-- Double colons that are read are taken off the front. -/
theorem rest_of_op_colons {u : Unit} (h : op "::" c = some (u, c')) :
    ∃ j, c.rest = colons j ++ c'.rest := by
  unfold op at h
  rw [ahead_bind] at h
  obtain ⟨_, c₁, hrequire, hdrop⟩ := of_bind h
  obtain ⟨hat, rfl⟩ := of_require hrequire
  cases hdrop
  exact eq_of_atOp_colons hat

theorem rest_of_op?_colons {b : Bool} (h : op? "::" c = some (b, c')) :
    ∃ j, c.rest = (if b then colons j else []) ++ c'.rest := by
  unfold op? at h
  rw [sees_bind] at h
  split at h
  · obtain ⟨_, c₁, hop, h⟩ := of_bind h
    cases h
    exact rest_of_op_colons hop
  · cases h
    exact ⟨false, rfl⟩

/-! Where a part fails, the whole does. -/

theorem fails_get {k : Cursor → Reader β} {ts : List Token}
    (hk : ∀ printed mentioned, Fails (k ⟨ts, printed, mentioned⟩) ts) : Fails (get >>= k) ts :=
  fun printed mentioned => hk printed mentioned printed mentioned

theorem Fails.map {φ : α → β} {ts : List Token} (h : Fails r ts) : Fails (φ <$> r) ts := by
  rw [map_eq_pure_bind]
  exact h.bind _

theorem Fails.captured {ts : List Token} (h : Fails r ts) : Fails (Reader.captured r) ts := by
  intro printed mentioned
  unfold Reader.captured
  rw [h]

theorem Fails.printing {φ : α → Fragment} {ts : List Token} (h : Fails r ts) :
    Fails (Reader.printing φ r) ts := (h.captured.bind _).bind _

theorem Fails.inGroup (d : Delimiter) {inner : List Token} (h : Fails r inner) (ts : List Token) :
    Fails (Reader.inGroup d r) (.group d inner :: ts) := by
  refine (reads_next _ _).fails ?_
  refine (reads_require (by simp) _).fails fun printed mentioned => ?_
  have hrun : StateT.run r (start inner) = none := h [] []
  simp only [hrun]
  rfl

/-- What fails the first time is not collected. -/
theorem Fails.collect {r : Reader (Option α)} {ts : List Token} (h : Fails r ts) :
    Fails (Reader.collect r) ts := (reads_ahead ts).fails (h.bind _)

theorem Fails.run? {ts : List Token} (h : Fails r ts) : r.run? ts = none := by
  unfold Reader.run?
  rw [show StateT.run r (start ts) = none from h [] []]

end Reader

/-! ## 2. Spellings -/

theorem Ident.isSegment_of_isWord {i : Ident} {w : String} (h : i.isWord w = true)
    (hw : w ∈ Ident.pathWords) : i.isSegment = true := by
  rw [Ident.isSegment, Bool.or_eq_true]
  exact .inr (List.any_eq_true.mpr ⟨w, hw, h⟩)

namespace Path

/-- Names with double colons before each. Whether the second colon touches what follows makes no
difference. -/
inductive Rooted : List Token → List Ident → Prop
  | nil : Rooted [] []
  | cons (j : Bool) (i : Ident) {ts : List Token} {is : List Ident} (h : Rooted ts is) :
    Rooted (colons j ++ .ident i :: ts) (i :: is)

/-- The tokens are the names of a path, with double colons between them and perhaps in front. -/
inductive Spelled : List Token → Path → Prop
  | intro (leading j : Bool) (first : Ident) {rest : List Token} {others : List Ident}
    (h : Rooted rest others)
    (hnames : ∀ i ∈ first :: others, i.isSegment = true ∨ i.isWord "try" = true) :
    Spelled ((if leading then colons j else []) ++ .ident first :: rest)
      ⟨leading, (first :: others).map (⟨·, none⟩)⟩

variable {g : Grammar} {c c' : Cursor}

/-- What is read of a segment after its name is nothing if there are no arguments. -/
theorem eq_of_arguments {i : Ident} {s : Segment} (hs : s.args = none)
    (h : (do
      if ← sees (Grammar.atArguments false) then return ⟨i, some (← g.arguments)⟩
      else return ⟨i, none⟩ : Reader Segment) c = some (s, c')) : s = ⟨i, none⟩ ∧ c' = c := by
  rw [sees_bind] at h
  split at h
  · obtain ⟨as, c₁, -, h⟩ := of_bind h
    cases h
    cases hs
  · cases h
    exact ⟨rfl, rfl⟩

/-- A segment without arguments is one identifier. -/
theorem rest_of_segment {s : Segment} (h : g.segment false c = some (s, c')) (hs : s.args = none) :
    ∃ i, s = ⟨i, none⟩ ∧ c.rest = .ident i :: c'.rest ∧
      (i.isSegment = true ∨ i.isWord "try" = true) := by
  obtain ⟨c₁, h, hrest⟩ := rest_of_printing h
  rw [hrest]
  rw [ahead_bind] at h
  split at h
  · next hwords =>
    obtain ⟨i, c₂, hident, h⟩ := of_bind h
    cases h
    have hi := rest_of_anyIdent hident
    rw [hi] at hwords
    refine ⟨i, rfl, hi, ?_⟩
    simp only [atWordIn, atWord, List.any_cons, List.any_nil, Bool.or_eq_true, Bool.or_false]
      at hwords
    rcases hwords with hword | hword | hword | hword
    · exact .inl (Ident.isSegment_of_isWord hword (by decide))
    · exact .inl (Ident.isSegment_of_isWord hword (by decide))
    · exact .inl (Ident.isSegment_of_isWord hword (by decide))
    · exact .inr hword
  · split at h
    · next hself =>
      obtain ⟨i, c₂, hident, h⟩ := of_bind h
      obtain ⟨rfl, rfl⟩ := eq_of_arguments hs h
      have hi := rest_of_anyIdent hident
      rw [hi] at hself
      exact ⟨i, rfl, hi, .inl (Ident.isSegment_of_isWord hself (by decide))⟩
    · obtain ⟨i, c₂, hname, h⟩ := of_bind h
      obtain ⟨rfl, rfl⟩ := eq_of_arguments hs h
      obtain ⟨hi, hisName⟩ := rest_of_name hname
      exact ⟨i, rfl, hi, .inl (Ident.isSegment_of_isName hisName)⟩

/-- The segments after the first, if nothing follows them. -/
theorem rooted_of_rounds {ss : List Segment} (n : Nat) (hs : ∀ s ∈ ss, s.args = none)
    (hend : c'.rest = [])
    (h : collect.rounds (do
      let ts ← ahead
      if atOp "::" ts && !atGroup .paren (ts.drop 2) then
        op "::"
        return some (← g.segment false)
      else return none) n c = some (ss, c')) :
    ∃ is, ss = is.map (⟨·, none⟩) ∧ Rooted c.rest is ∧
      ∀ i ∈ is, i.isSegment = true ∨ i.isWord "try" = true := by
  -- By the rounds: each takes two colons and a segment, and the last one takes nothing.
  induction n generalizing c ss with
  | zero => cases h
  | succ n ih =>
    obtain ⟨s?, c₁, hround, h⟩ := of_bind h
    rw [ahead_bind] at hround
    split at hround
    · obtain ⟨_, c₂, hop, hround⟩ := of_bind hround
      obtain ⟨s, c₃, hsegment, hround⟩ := of_bind hround
      cases hround
      obtain ⟨ss', c₄, hrest, h⟩ := of_bind h
      cases h
      rw [List.forall_mem_cons] at hs
      obtain ⟨is, rfl, his, hnames⟩ := ih hs.2 hrest
      obtain ⟨i, rfl, hi, hname⟩ := rest_of_segment hsegment hs.1
      obtain ⟨j, hcolons⟩ := rest_of_op_colons hop
      refine ⟨i :: is, rfl, ?_, List.forall_mem_cons.mpr ⟨hname, hnames⟩⟩
      rw [hcolons, hi]
      exact .cons j i his
    · cases hround
      cases h
      exact ⟨[], rfl, hend ▸ .nil, fun i hi => absurd hi List.not_mem_nil⟩

/-- What was read as a path without arguments is the names of the path. -/
theorem spelled_of_run? {p : Path} {ts : List Token} (h : (g.path false).run? ts = some p)
    (hp : p.isPlain = true) : Spelled ts p := by
  unfold run? at h
  split at h
  · next a c hrun =>
    split at h
    · next hend =>
      rw [← Option.some.inj h] at hp ⊢
      obtain ⟨c₁, hpath, hrest⟩ := rest_of_printing hrun
      obtain ⟨leading, c₂, hleading, hpath⟩ := of_bind hpath
      obtain ⟨s, c₃, hfirst, hpath⟩ := of_bind hpath
      obtain ⟨ss, c₄, hmore, hpath⟩ := of_bind hpath
      cases hpath
      rw [hrest, List.isEmpty_iff] at hend
      -- The path is written out segment by segment, since none of them has arguments.
      have hplain : ∀ s' ∈ s :: ss, s'.args = none := fun s' hs' =>
        Option.isNone_iff_eq_none.mp (List.all_eq_true.mp hp s' hs')
      rw [List.forall_mem_cons] at hplain
      obtain ⟨is, rfl, his, hnames⟩ := rooted_of_rounds _ hplain.2 hend hmore
      obtain ⟨i, rfl, hi, hname⟩ := rest_of_segment hfirst hplain.1
      obtain ⟨j, hcolons⟩ := rest_of_op?_colons hleading
      have hts : ts = (if leading then colons j else []) ++ .ident i :: c₃.rest := by
        rw [← hi]
        exact hcolons
      rw [hts]
      exact .intro leading j i his (List.forall_mem_cons.mpr ⟨hname, hnames⟩)
    · cases h
  · cases h

/-! ## 3. In attributes -/

/-- Whether one of the names is the word `try`. -/
def hasTry (p : Path) : Bool := p.segments.any (·.ident.isWord "try")

/-- What reads the names of an attribute's path after the first. -/
def plainRound : Reader (Option Ident) := do
  if ← op? "::" then return some (← readIdent) else return none

variable {p : Path} {ts : List Token} {is : List Ident}

theorem Rooted.collects (h : Rooted ts is) (his : ∀ i ∈ is, i.isSegment = true) :
    ∃ f, Collects plainRound ts [] is f := by
  induction h with
  | nil =>
    have hstop : Reads plainRound [] [] none .empty :=
      (reads_op?_of_not rfl).andThen (reads_pure none [])
    exact ⟨_, .stop hstop⟩
  | @cons j i ts is h ih =>
    rw [List.forall_mem_cons] at his
    obtain ⟨f, hf⟩ := ih his.2
    have hround : Reads plainRound (colons j ++ .ident i :: ts) ts (some i) _ :=
      Reads.bind (reads_op?_of_at (atOp_colons j _) rfl)
        ((NamePath.reads_readIdent his.1 ts).before (reads_pure (some i) ts))
    exact ⟨_, .round hround (by simp [colons]; omega) hf⟩

theorem fails_readIdent {i : Ident} (hi : i.isWord "try" = true) (ts : List Token) :
    Fails readIdent (.ident i :: ts) := by
  have hsegment : i.isSegment = false := by
    rw [Bool.eq_false_iff]
    intro hsegment
    have hword := Ident.not_isWord_of_isSegment (w := "try") hsegment (by decide) (by decide)
    rw [hword] at hi
    cases hi
  exact (reads_ahead _).fails ((fails_require hsegment _).bind _)

/-- The names after the first are read up to the word `try`, and there reading fails. -/
theorem Rooted.fails (h : Rooted ts is) (his : ∀ i ∈ is, i.isSegment = true ∨ i.isWord "try" = true)
    (htry : is.any (·.isWord "try") = true) (n : Nat) : Fails (collect.rounds plainRound n) ts := by
  induction h generalizing n with
  | nil => cases htry
  | @cons j i ts is h ih =>
    rw [List.forall_mem_cons] at his
    cases n with
    | zero => exact fun _ _ => rfl
    | succ n =>
      have hcolons := reads_op?_of_at (atOp_colons j (.ident i :: ts)) rfl
      by_cases hi : i.isWord "try" = true
      · refine Fails.bind ?_ _
        exact hcolons.fails ((fails_readIdent hi ts).bind _)
      · have hround : Reads plainRound (colons j ++ .ident i :: ts) ts (some i) _ :=
          hcolons.bind
            ((NamePath.reads_readIdent (his.1.resolve_right hi) ts).before (reads_pure (some i) ts))
        rw [List.any_cons, Bool.or_eq_true] at htry
        exact hround.fails ((ih his.2 (htry.resolve_left hi) n).bind _)

theorem reads_front (leading j : Bool) (i : Ident) (ts : List Token) :
    ∃ f, Reads (op? "::") ((if leading then colons j else []) ++ .ident i :: ts) (.ident i :: ts)
      leading f := by
  cases leading with
  | true => exact ⟨_, reads_op?_of_at (atOp_colons j _) rfl⟩
  | false => exact ⟨_, reads_op?_of_not rfl⟩

theorem hasTry_map (leading : Bool) (is : List Ident) :
    hasTry ⟨leading, is.map (⟨·, none⟩)⟩ = is.any (·.isWord "try") := by
  rw [hasTry, List.any_map]
  rfl

/-- An attribute reads the path. -/
theorem Spelled.reads_readPlain (h : Spelled ts p) (htry : p.hasTry = false) :
    Reads readPlain ts [] p p.fragment := by
  obtain ⟨leading, j, first, hrooted, hnames⟩ := h
  rw [hasTry_map, List.any_eq_false] at htry
  have hsegments : ∀ i ∈ first :: _, i.isSegment = true := fun i hi =>
    (hnames i hi).resolve_right (htry i hi)
  rw [List.forall_mem_cons] at hsegments
  obtain ⟨f, hfront⟩ := reads_front leading j first _
  obtain ⟨f', hothers⟩ := hrooted.collects hsegments.2
  refine Reads.printing (f := f ++ (.plain [.ident first] ++ f')) (hfront.bind ?_)
  refine (NamePath.reads_readIdent hsegments.1 _).bind ?_
  exact hothers.reads.before (reads_pure _ [])

/-- The word `try` is no name of an attribute. -/
theorem Spelled.fails_readPlain (h : Spelled ts p) (htry : p.hasTry = true) :
    Fails readPlain ts := by
  obtain ⟨leading, j, first, hrooted, hnames⟩ := h
  rw [hasTry_map, List.any_cons, Bool.or_eq_true] at htry
  rw [List.forall_mem_cons] at hnames
  obtain ⟨f, hfront⟩ := reads_front leading j first _
  refine Fails.printing (hfront.fails ?_)
  by_cases hfirst : first.isWord "try" = true
  · exact (fails_readIdent hfirst _).bind _
  · refine (NamePath.reads_readIdent (hnames.1.resolve_right hfirst) _).fails (Fails.bind ?_ _)
    refine (reads_ahead _).fails ?_
    exact hrooted.fails hnames.2 (htry.resolve_left hfirst) _

theorem Spelled.not_atWord (h : Spelled ts p) {w : String} (hw : w ∈ Ident.reservedWords)
    (hne : w ∉ "try" :: Ident.pathWords) : atWord w ts = false := by
  obtain ⟨leading, j, first, hrooted, hnames⟩ := h
  rw [List.mem_cons, not_or] at hne
  cases leading with
  | true => rfl
  | false =>
    rcases hnames first List.mem_cons_self with hsegment | htry
    · exact Ident.not_isWord_of_isSegment hsegment hw hne.2
    · exact Ident.not_isWord_of_isWord htry (Ne.symm hne.1)

/-- Names and colons are all there is. -/
theorem Rooted.mem (h : Rooted ts is) {t : Token} (ht : t ∈ ts) :
    (∃ i, t = .ident i) ∨ ∃ j, t = .punct ':' j := by
  induction h with
  | nil => cases ht
  | cons j i h ih =>
    simp only [colons, List.cons_append, List.nil_append, List.mem_cons] at ht
    rcases ht with rfl | rfl | rfl | ht
    · exact .inr ⟨_, rfl⟩
    · exact .inr ⟨_, rfl⟩
    · exact .inl ⟨_, rfl⟩
    · exact ih ht

@[inherit_doc Rooted.mem]
theorem Spelled.mem (h : Spelled ts p) {t : Token} (ht : t ∈ ts) :
    (∃ i, t = .ident i) ∨ ∃ j, t = .punct ':' j := by
  obtain ⟨leading, j, first, hrooted, -⟩ := h
  rw [List.mem_append, List.mem_cons] at ht
  rcases ht with ht | rfl | ht
  · cases leading with
    | true =>
      simp only [colons, if_true, List.mem_cons, List.not_mem_nil, or_false] at ht
      rcases ht with rfl | rfl
      · exact .inr ⟨_, rfl⟩
      · exact .inr ⟨_, rfl⟩
    | false => cases ht
  · exact .inl ⟨_, rfl⟩
  · exact hrooted.mem ht

end Path

end EnumCatalog.Syntax
