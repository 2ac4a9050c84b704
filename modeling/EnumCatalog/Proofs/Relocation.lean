import EnumCatalog.Proofs.Resolution

/-!
# Putting in elsewhere

The same block of scopes may be put into a program at one place or at another, say as a file or as a
module in braces. Its scopes have other numbers then, and so have those that come after either
place. But if no other scope belongs to one of the block's modules, every look-up by module finds
the same scope as before, so both programs resolve all paths alike (`Scopes.alike_relocate`), and
the candidates of the block are repetitions of no others, so both keep the same ones
(`Program.liveCandidates_perm`). The descriptors agree but for their order
(`Program.descriptors_perm_of_relocate`).
-/

set_option autoImplicit false

namespace EnumCatalog

open Syntax (Item Enum ModuleHead)
open Syntax.Item (scopeCountAll)

/-! ## 1. A block in different files -/

/-- The candidate as if it stood in another file. -/
def Candidate.moveTo (file : FsPath) (c : Candidate) : Candidate := { c with file := file }

/-- The place as if it were in another file. -/
def Place.moveTo (file : FsPath) (p : Place) : Place := { p with file := file }

namespace Declarations

mutual

theorem ofItem_moveTo (o : Cfg.Options) (p : Place) (file : FsPath) (scope next : ScopeId)
    (i : Item) : ofItem o (p.moveTo file) scope next i =
      ⟨(ofItem o p scope next i).scopes,
        (ofItem o p scope next i).candidates.map (·.moveTo file)⟩ := by
  cases i with
  | enum e =>
    rw [ofItem, ofItem, ofEnum, ofEnum]
    split <;> rfl
  | inlineModule h items =>
    have hitems := ofItems_moveTo o (p.within o h) file next (next + 1) items
    have hwithin : (p.moveTo file).within o h = (p.within o h).moveTo file := rfl
    rw [ofItem, ofItem, hwithin, hitems]
    rfl
  | _ => rfl

theorem ofItems_moveTo (o : Cfg.Options) (p : Place) (file : FsPath) (scope next : ScopeId)
    (xs : List Item) : ofItems o (p.moveTo file) scope next xs =
      ⟨(ofItems o p scope next xs).scopes,
        (ofItems o p scope next xs).candidates.map (·.moveTo file)⟩ := by
  cases xs with
  | nil => rfl
  | cons i rest =>
    rw [ofItems_cons, ofItems_cons, ofItem_moveTo o p file scope next i,
      ofItems_moveTo o p file scope (next + i.scopeCount) rest]
    ext1
    · rfl
    · simp

end

/-- How the numbers of a block's scopes change that are counted from elsewhere. -/
def BlockShift (k n n' : Nat) (i j : ScopeId) : Prop := ∃ l < k, i = n + l ∧ j = n' + l

/-- A block in another file and with other numbers declares the same scopes and twins of the
candidates. -/
theorem ofBlock_relocate (o : Cfg.Options) (p : Place) (file : FsPath) (n n' : Nat)
    (items : List Item) :
    (ofBlock o (p.moveTo file) n' items).scopes = (ofBlock o p n items).scopes ∧
      List.Forall₂ (Candidate.Twin (BlockShift (scopeCountAll items + 1) n n'))
        (ofBlock o p n items).candidates (ofBlock o (p.moveTo file) n' items).candidates := by
  -- Every number keeps its distance from that of the block.
  let f : ScopeId → ScopeId := fun i => i - n + n'
  have hf : ∀ j, f (n + j) = n' + j := fun j => by
    show n + j - n + n' = n' + j
    omega
  have hitems : ofItems o (p.moveTo file) n' (n' + 1) items =
      ⟨(ofItems o p n (n + 1) items).scopes,
        (ofItems o p n (n + 1) items).candidates.map fun c => (c.renumber f).moveTo file⟩ := by
    have h := ofItems_renumber o p n (n + 1) (n' + 1) f items fun j _ => by
      rw [Nat.add_assoc, hf, Nat.add_assoc]
    rw [show f n = n' from hf 0] at h
    rw [ofItems_moveTo, h]
    ext1
    · rfl
    · simp [renumber]
  constructor
  · show Scope.mk _ _ :: (ofItems o (p.moveTo file) n' (n' + 1) items).scopes = _
    rw [hitems]
    rfl
  · show List.Forall₂ _ (ofItems o p n (n + 1) items).candidates
      (ofItems o (p.moveTo file) n' (n' + 1) items).candidates
    rw [hitems, List.forall₂_map_right_iff, List.forall₂_same]
    intro c hc
    refine ⟨rfl, rfl, rfl, rfl, ?_⟩
    show BlockShift _ n n' c.scope (f c.scope)
    rcases scope_of_mem_ofItems hc with hs | ⟨j, hj, hs⟩
    · rw [hs]
      exact ⟨0, Nat.succ_pos _, rfl, hf 0⟩
    · rw [hs, Nat.add_assoc, Nat.add_comm 1 j]
      exact ⟨j + 1, Nat.succ_lt_succ hj, rfl, hf (j + 1)⟩

end Declarations

/-! ## 2. Look-ups -/

open Declarations (BlockShift IsInsertion)

/-- How the numbers of scopes change when a block is elsewhere: those of the block, and all
others. -/
def Relocated (k n n' : Nat) (i j : ScopeId) : Prop :=
  BlockShift k n n' i j ∨ ∃ l, i = shiftFrom n k l ∧ j = shiftFrom n' k l

/-- What only things in the middle satisfy is found first in the middle. -/
theorem findIdx?_middle {α : Type} {p : α → Bool} {as xs : List α} (bs : List α)
    (has : ∀ a ∈ as, p a = false) (hxs : ∃ x ∈ xs, p x = true) :
    ∃ k < xs.length, xs.findIdx? p = some k ∧
      (as ++ xs ++ bs).findIdx? p = some (as.length + k) := by
  obtain ⟨x, hx, hpx⟩ := hxs
  cases hk : xs.findIdx? p with
  | none =>
    rw [List.findIdx?_eq_none_iff.mp hk x hx] at hpx
    cases hpx
  | some k =>
    refine ⟨k, (List.findIdx?_eq_some_iff_getElem.mp hk).1, rfl, ?_⟩
    rw [List.findIdx?_append, List.findIdx?_append, List.findIdx?_eq_none_iff.mpr has, hk]
    simp [Nat.add_comm]

namespace Scopes

/-- Wherever a block of scopes is, look-ups find the same, if it is alone in its modules. -/
theorem alike_relocate {as bs as' bs' xs : List Scope} (hbase : as ++ bs = as' ++ bs')
    (hnew : ∀ x ∈ xs, ∀ m, x.module? = some m → ∀ s ∈ as ++ bs, s.module? ≠ some m) :
    Alike (Relocated xs.length as.length as'.length) ⟨as ++ xs ++ bs⟩ ⟨as' ++ xs ++ bs'⟩ := by
  have hget : ∀ i j, Relocated xs.length as.length as'.length i j →
      get? ⟨as ++ xs ++ bs⟩ i = get? ⟨as' ++ xs ++ bs'⟩ j := by
    rintro i j (⟨l, hl, rfl, rfl⟩ | ⟨l, rfl, rfl⟩)
    · simp only [get?, List.append_assoc]
      rw [List.getElem?_append_right (Nat.le_add_right _ _),
        List.getElem?_append_right (Nat.le_add_right _ _), Nat.add_sub_cancel_left,
        Nat.add_sub_cancel_left, List.getElem?_append_left hl, List.getElem?_append_left hl]
    · rw [get?, get?, getElem?_shiftFrom, getElem?_shiftFrom, hbase]
  constructor
  · intro i j h
    rw [moduleOf?, moduleOf?, hget i j h]
  · intro i j h name
    rw [targetOf?, targetOf?, hget i j h]
  · intro i j h
    rw [globsOf, globsOf, hget i j h]
  · intro m
    show Option.Rel _ ((as ++ xs ++ bs).findIdx? _) ((as' ++ xs ++ bs').findIdx? _)
    -- The scopes of a module are all in the block, or all outside.
    by_cases hm : ∃ x ∈ xs, x.module? = some m
    · obtain ⟨x, hx, hxm⟩ := hm
      have hnot : ∀ s ∈ as ++ bs, (s.module? == some m) = false :=
        fun s hs => beq_eq_false_iff_ne.mpr (hnew x hx m hxm s hs)
      have hex : ∃ x ∈ xs, (x.module? == some m) = true := ⟨x, hx, beq_iff_eq.mpr hxm⟩
      obtain ⟨k, hk, hfind, hfirst⟩ := findIdx?_middle bs
        (fun a ha => hnot a (List.mem_append_left bs ha)) hex
      obtain ⟨k', -, hfind', hfirst'⟩ := findIdx?_middle bs'
        (fun a ha => hnot a (hbase ▸ List.mem_append_left bs' ha)) hex
      obtain rfl := Option.some.inj (hfind.symm.trans hfind')
      rw [hfirst, hfirst']
      exact Option.Rel.some (Or.inl ⟨k, hk, rfl, rfl⟩)
    · have hno : ∀ ys : List Scope, ∀ x ∈ xs, (x.module? == some m) = true →
          ∃ a ∈ ys, (a.module? == some m) = true :=
        fun _ x hx heq => absurd ⟨x, hx, beq_iff_eq.mp heq⟩ hm
      rw [findIdx?_insert bs (hno as), findIdx?_insert bs' (hno as'), hbase]
      cases (as' ++ bs').findIdx? fun s => s.module? == some m with
      | none => exact Option.Rel.none
      | some l => exact Option.Rel.some (Or.inr ⟨l, rfl, rfl⟩)

end Scopes

/-! ## 3. Candidates -/

namespace Candidate

/-- Whether a candidate is not known to be left out of the build. -/
def isLive (c : Candidate) : Bool := c.enabled != some false

theorem Twin.isLive_eq {R : ScopeId → ScopeId → Prop} {c c' : Candidate} (h : Twin R c c') :
    c.isLive = c'.isLive := by
  rw [isLive, isLive, h.enabled]

theorem Twin.key_eq {R : ScopeId → ScopeId → Prop} {c c' : Candidate} (h : Twin R c c')
    (hm : c.module?.isSome = true) : c.key = c'.key := by
  obtain ⟨m, hm⟩ := Option.isSome_iff_exists.mp hm
  have hname : c.name = c'.name := congrArg (·.ident.name) h.enum
  rw [key, key, ← h.module?, hm, hname]

theorem key_ne_of_module?_ne {a c : Candidate} {path : ModulePath} (ha : a.module? = some path)
    (hc : c.module? ≠ some path) : a.key ≠ c.key := by
  intro hkey
  simp only [key, ha] at hkey
  cases hmod : c.module? with
  | none =>
    rw [hmod] at hkey
    cases hkey
  | some other =>
    rw [hmod] at hkey
    exact hc (hmod.trans (congrArg some (Key.inModule.inj hkey).1.symm))

end Candidate

namespace Program

variable {p p' : Program} {m : Marker} {crateName : String} {d x x' : Declarations} {n n' : Nat}

/-- Candidates that are put in and repeat no others are kept on their own. -/
theorem liveCandidates_perm (h : IsInsertion n d x p.declarations)
    (hnew : ∀ a ∈ x.candidates, ∀ c ∈ d.candidates, a.key ≠ c.key) :
    p.liveCandidates.Perm (Candidate.dedup (x.candidates.filter (·.isLive)) ++
      (Candidate.dedup (d.candidates.filter (·.isLive))).map
        (·.renumber (shiftFrom n x.scopes.length))) := by
  obtain ⟨as, bs, before, after, -, hbefore, rfl, hp⟩ := h
  let f := shiftFrom n x.scopes.length
  have hkept : before.map (·.renumber f) = before := Candidate.map_renumber_shiftFrom_of_lt hbefore
  -- The candidates around keep or shift their numbers; their keys are the same.
  have hall : p.declarations.candidates.filter (·.isLive) =
      (before.map (·.renumber f)).filter (·.isLive) ++ x.candidates.filter (·.isLive) ++
        (after.map (·.renumber f)).filter (·.isLive) := by
    rw [hp, hkept, List.filter_append, List.filter_append]
  have hbase : (before.map (·.renumber f)).filter (·.isLive) ++
      (after.map (·.renumber f)).filter (·.isLive) =
        ((before ++ after).filter (·.isLive)).map (·.renumber f) := by
    rw [← List.filter_append, ← List.map_append, List.filter_map]
    rfl
  rw [liveCandidates]
  show (Candidate.dedup (p.declarations.candidates.filter (·.isLive))).Perm _
  rw [hall, ← Candidate.dedup_map (f := (·.renumber f)) (fun c => rfl), ← hbase]
  refine Candidate.dedup_append_append fun a ha c hc => ?_
  rw [hbase] at hc
  obtain ⟨b, hb, rfl⟩ := List.mem_map.mp hc
  exact hnew a (List.mem_of_mem_filter ha) b (List.mem_of_mem_filter hb)

/-- Wherever the same block is put in, look-ups find the same. -/
theorem alike_of_isInsertion (h : IsInsertion n d x p.declarations)
    (h' : IsInsertion n' d x' p'.declarations) (hscopes : x'.scopes = x.scopes)
    (hnew : ∀ s ∈ x.scopes, ∀ path, s.module? = some path → ∀ t ∈ d.scopes, t.module? ≠ some path) :
    p.scopes.Alike (Relocated x.scopes.length n n') p'.scopes := by
  obtain ⟨as, bs, before, after, hn, -, hd, hp⟩ := h
  obtain ⟨as', bs', before', after', hn', -, hd', hp'⟩ := h'
  have hbase : as ++ bs = as' ++ bs' := by
    rw [hd] at hd'
    exact congrArg (·.scopes) hd'
  have hfresh : ∀ s ∈ x.scopes, ∀ path, s.module? = some path →
      ∀ t ∈ as ++ bs, t.module? ≠ some path := by
    intro s hs path hpath t ht
    refine hnew s hs path hpath t ?_
    rw [hd]
    exact ht
  have halike := Scopes.alike_relocate hbase hfresh
  rw [hn, hn'] at halike
  rw [scopes, scopes, hp, hp', hscopes]
  exact halike

/-- The candidates that are kept of a block, and all others, are twins one by one. -/
theorem forall₂_twin_of_relocate (d : Declarations)
    (hpairs : List.Forall₂
      (fun a b => a.key = b.key ∧ a.Twin (BlockShift x.scopes.length n n') b)
      x.candidates x'.candidates) :
    List.Forall₂ (Candidate.Twin (Relocated x.scopes.length n n'))
      (Candidate.dedup (x.candidates.filter (·.isLive)) ++
        (Candidate.dedup (d.candidates.filter (·.isLive))).map
          (·.renumber (shiftFrom n x.scopes.length)))
      (Candidate.dedup (x'.candidates.filter (·.isLive)) ++
        (Candidate.dedup (d.candidates.filter (·.isLive))).map
          (·.renumber (shiftFrom n' x.scopes.length))) := by
  refine List.rel_append ?_ ?_
  · have hlive := List.rel_filter (p := (·.isLive)) (q := (·.isLive))
      (fun a b h => iff_of_eq (congrArg (· = true) h.2.isLive_eq)) hpairs
    exact (Candidate.forall₂_dedup (fun _ _ h => h.1) hlive).imp fun _ _ h =>
      { h.2 with scope := Or.inl h.2.scope }
  · rw [List.forall₂_map_left_iff, List.forall₂_map_right_iff, List.forall₂_same]
    exact fun c _ => ⟨rfl, rfl, rfl, rfl, Or.inr ⟨c.scope, rfl, rfl⟩⟩

/-- **Putting in elsewhere.** In programs into which the same block is put at different places the
same is found but for its order, if the block is alone in its modules. -/
theorem filterMap_describe_perm_of_relocate (h : IsInsertion n d x p.declarations)
    (h' : IsInsertion n' d x' p'.declarations) (hscopes : x'.scopes = x.scopes)
    (htwins : List.Forall₂ (Candidate.Twin (BlockShift x.scopes.length n n'))
      x.candidates x'.candidates)
    (hmodule : ∀ a ∈ x.candidates, ∃ s ∈ x.scopes, ∃ path,
      s.module? = some path ∧ a.module? = some path)
    (hbase : ∀ c ∈ d.candidates, ∃ s ∈ d.scopes, s.module? = c.module?)
    (hnew : ∀ s ∈ x.scopes, ∀ path, s.module? = some path → ∀ t ∈ d.scopes, t.module? ≠ some path) :
    (p.liveCandidates.filterMap (·.describe p.scopes m crateName)).Perm
      (p'.liveCandidates.filterMap (·.describe p'.scopes m crateName)) := by
  -- A candidate of the block has a key of its own, since its module is not declared elsewhere.
  have hkeys : ∀ a ∈ x.candidates, ∀ c ∈ d.candidates, a.key ≠ c.key := by
    intro a ha c hc
    obtain ⟨s, hs, path, hpath, hmod⟩ := hmodule a ha
    obtain ⟨t, ht, htmod⟩ := hbase c hc
    exact Candidate.key_ne_of_module?_ne hmod fun h => hnew s hs path hpath t ht (htmod.trans h)
  have hpairs : List.Forall₂
      (fun a b => a.key = b.key ∧ a.Twin (BlockShift x.scopes.length n n') b)
      x.candidates x'.candidates := by
    refine ((List.forall₂_and_left _ _).mpr ⟨hmodule, htwins⟩).imp fun a b hab => ⟨?_, hab.2⟩
    obtain ⟨-, -, path, -, hmod⟩ := hab.1
    exact hab.2.key_eq (hmod ▸ rfl)
  have hkeys' : ∀ a ∈ x'.candidates, ∀ c ∈ d.candidates, a.key ≠ c.key := by
    have hmap : x.candidates.map (·.key) = x'.candidates.map (·.key) := by
      rw [← List.forall₂_eq_eq_eq, List.forall₂_map_left_iff, List.forall₂_map_right_iff]
      exact hpairs.imp fun _ _ h => h.1
    intro a' ha' c hc
    obtain ⟨a, ha, hkey⟩ := List.mem_map.mp (hmap ▸ List.mem_map_of_mem ha')
    rw [← hkey]
    exact hkeys a ha c hc
  have hss := alike_of_isInsertion h h' hscopes hnew
  have hall := forall₂_twin_of_relocate d hpairs
  refine ((liveCandidates_perm h hkeys).filterMap _).trans ?_
  rw [Candidate.filterMap_describe_eq hss hall]
  rw [← hscopes]
  exact ((liveCandidates_perm h' hkeys').filterMap _).symm

@[inherit_doc filterMap_describe_perm_of_relocate]
theorem descriptors_perm_of_relocate (hm : p.mentions m.crateName = p'.mentions m.crateName)
    (h : IsInsertion n d x p.declarations) (h' : IsInsertion n' d x' p'.declarations)
    (hscopes : x'.scopes = x.scopes)
    (htwins : List.Forall₂ (Candidate.Twin (BlockShift x.scopes.length n n'))
      x.candidates x'.candidates)
    (hmodule : ∀ a ∈ x.candidates, ∃ s ∈ x.scopes, ∃ path,
      s.module? = some path ∧ a.module? = some path)
    (hbase : ∀ c ∈ d.candidates, ∃ s ∈ d.scopes, s.module? = c.module?)
    (hnew : ∀ s ∈ x.scopes, ∀ path, s.module? = some path → ∀ t ∈ d.scopes, t.module? ≠ some path) :
    (p.extract m crateName .never).descriptors.Perm (p'.extract m crateName .never).descriptors := by
  cases hmention : p.mentions m.crateName with
  | false =>
    rw [descriptors_extract_of_not_mentions hmention,
      descriptors_extract_of_not_mentions (hm.symm.trans hmention)]
  | true =>
    rw [descriptors_extract hmention, descriptors_extract (hm.symm.trans hmention)]
    exact filterMap_describe_perm_of_relocate h h' hscopes htwins hmodule hbase hnew

end Program

end EnumCatalog
