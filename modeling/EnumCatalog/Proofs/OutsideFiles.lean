import EnumCatalog.Proofs.Akin
import EnumCatalog.Proofs.Resolution

/-!
# Files outside the module tree

A file that the crate root does not lead to is loaded without a module. Its enums cannot be named,
so they come to nothing, and its scopes are no module's, so no path leads into them. What is found
in a program is therefore found in its files with a module alone
(`Program.descriptors_extractAnyway_inTree`). The search for the name of the marker's crate is not
part of this: it does look into such files.

A file in no module is not the only one that adds nothing to those before it. It is enough that the
modules it is in have scopes there, and that its candidates are there under the same keys
(`Declarations.Covers`, `Program.descriptors_extractAnyway_insert`).
-/

set_option autoImplicit false

namespace EnumCatalog

/-! ## 1. Candidates in no module -/

namespace Candidate

variable {ss : Scopes} {m : Marker} {crateName : String}

/-- A candidate in a module. -/
def inTree (c : Candidate) : Bool := c.module?.isSome

/-- A candidate that may be found: in a module, and not known to be left out of the build. -/
def isEligible (c : Candidate) : Bool := c.inTree && c.enabled != some false

theorem describe_eq_none_of_outside {c : Candidate} (h : c.inTree = false) :
    c.describe ss m crateName = none := by
  have hnone : c.module? = none := by simpa [inTree] using h
  rw [describe, Extraction.examine, qualifiedName, hnone]

/-- Candidates in a module and others are not the same declaration. -/
theorem inTree_eq_of_key {a b : Candidate} (h : a.key = b.key) : a.inTree = b.inTree := by
  unfold key at h
  unfold inTree
  cases ha : a.module? <;> cases hb : b.module? <;> simp_all

theorem filter_inTree_dedupAgainst (seen : List Key) (cs : List Candidate) :
    (dedupAgainst seen cs).filter inTree = dedupAgainst seen (cs.filter inTree) := by
  induction cs generalizing seen with
  | nil => rfl
  | cons c cs ih =>
    by_cases hc : c.key ∈ seen
    · rw [dedupAgainst_cons_of_mem hc, ih]
      cases ht : c.inTree with
      | true => rw [List.filter_cons_of_pos ht, dedupAgainst_cons_of_mem hc]
      | false => rw [List.filter_cons_of_neg (by simp [ht])]
    · rw [dedupAgainst_cons_of_not_mem hc]
      cases ht : c.inTree with
      | true =>
        rw [List.filter_cons_of_pos ht, List.filter_cons_of_pos ht,
          dedupAgainst_cons_of_not_mem hc, ih]
      | false =>
        -- Its key is that of no candidate in a module, so it makes no difference to have seen it.
        rw [List.filter_cons_of_neg (by simp [ht]), List.filter_cons_of_neg (by simp [ht]), ih]
        refine dedupAgainst_congr fun a ha => ?_
        rw [List.mem_cons, or_iff_right]
        intro hkey
        have hin := inTree_eq_of_key hkey
        rw [ht, (List.mem_filter.mp ha).2] at hin
        cases hin

theorem filter_inTree_dedup (cs : List Candidate) :
    (dedup cs).filter inTree = dedup (cs.filter inTree) := filter_inTree_dedupAgainst [] cs

theorem filterMap_describe_inTree (cs : List Candidate) :
    (cs.filter inTree).filterMap (·.describe ss m crateName) =
      cs.filterMap (·.describe ss m crateName) := by
  induction cs with
  | nil => rfl
  | cons c cs ih =>
    cases ht : c.inTree with
    | true => rw [List.filter_cons_of_pos ht, List.filterMap_cons, List.filterMap_cons, ih]
    | false =>
      rw [List.filter_cons_of_neg (by simp [ht]), List.filterMap_cons,
        describe_eq_none_of_outside ht, ih]

end Candidate

/-! ## 2. Declarations that add nothing -/

namespace Declarations

/-- By way of modules, more declarations add nothing to those before them: each of their modules has
a scope there, and each of their candidates that may be found is one that is there. -/
structure Covers (d x : Declarations) : Prop where
  scopes : ∀ s ∈ x.scopes, ∀ path, s.module? = some path → ∃ t ∈ d.scopes, t.module? = some path
  candidates : ∀ c ∈ x.candidates, c.isEligible = true →
    ∃ a ∈ d.candidates, a.isEligible = true ∧ a.key = c.key

variable {o : Cfg.Options} {next : ScopeId} {u : SourceUnit}

theorem module?_of_mem_scopes_outside (h : u.module? = none) {s : Scope}
    (hs : s ∈ (ofUnit o next u).scopes) : s.module? = none := by
  rcases List.mem_cons.mp (show s ∈ _ :: (ofItems o (.ofUnit u) next _ _).scopes from hs)
    with rfl | hs
  · exact h
  · rw [Option.eq_none_iff_forall_ne_some]
    intro path hpath
    obtain ⟨m, hm, -⟩ := modules_of_mem_scopes_ofItems hs path hpath
    rw [Place.ofUnit, h] at hm
    cases hm

theorem inTree_of_mem_candidates_outside (h : u.module? = none) {c : Candidate}
    (hc : c ∈ (ofUnit o next u).candidates) : c.inTree = false := by
  obtain ⟨s, -, hstands, -⟩ := exists_site_of_mem_ofUnit hc
  rw [Candidate.inTree, hstands.module?, Place.module?_descend, Place.ofUnit, h]
  rfl

/-- Whatever else is declared, by way of modules a file in no module adds nothing to it. -/
theorem covers_outside (h : u.module? = none) (d : Declarations) : d.Covers (ofUnit o next u) where
  scopes s hs path hpath := by
    rw [module?_of_mem_scopes_outside h hs] at hpath
    cases hpath
  candidates c hc heligible := by
    rw [Candidate.isEligible, inTree_of_mem_candidates_outside h hc] at heligible
    cases heligible

end Declarations

/-! ## 3. Programs -/

namespace Program

variable {m : Marker} {crateName : String}

/-- The program of the files with a module. -/
def inTree (p : Program) : Program := { p with files := p.files.filter (·.module?.isSome) }

/-- What is found comes of the candidates in a module. -/
theorem filterMap_describe_liveCandidates (p : Program) :
    p.liveCandidates.filterMap (·.describe p.scopes m crateName) =
      (Candidate.dedup (p.declarations.candidates.filter (·.isEligible))).filterMap
        (·.describe p.scopes m crateName) := by
  unfold Candidate.isEligible
  rw [← List.filter_filter, ← Candidate.filter_inTree_dedup, Candidate.filterMap_describe_inTree]
  rfl

/-- Declarations that add nothing to those before them make no difference to what is found, though
those behind them have other numbers. -/
theorem filterMap_describe_of_covers {d x : Declarations} (h : d.Covers x) (e : Declarations)
    (hd : ∀ c ∈ d.candidates, c.scope < d.scopes.length) :
    let all := d ++ x ++ e.renumber (shiftFrom d.scopes.length x.scopes.length)
    (Candidate.dedup (all.candidates.filter (·.isEligible))).filterMap
        (·.describe ⟨all.scopes⟩ m crateName) =
      (Candidate.dedup ((d ++ e).candidates.filter (·.isEligible))).filterMap
        (·.describe ⟨(d ++ e).scopes⟩ m crateName) := by
  have halike := Scopes.alike_insert e.scopes h.scopes
  obtain ⟨f, hf⟩ : ∃ f, shiftFrom d.scopes.length x.scopes.length = f := ⟨_, rfl⟩
  rw [hf] at halike ⊢
  intro all
  have hall : all.candidates.filter (·.isEligible) = d.candidates.filter (·.isEligible) ++
      x.candidates.filter (·.isEligible) ++
        (e.candidates.filter (·.isEligible)).map (·.renumber f) := by
    show (d.candidates ++ x.candidates ++ e.candidates.map (·.renumber f)).filter _ = _
    rw [List.filter_append, List.filter_append, List.filter_map]
    rfl
  have hfixed : (d.candidates.filter (·.isEligible)).map (·.renumber f) =
      d.candidates.filter (·.isEligible) := by
    subst hf
    exact Candidate.map_renumber_shiftFrom_of_lt fun c hc => hd c (List.mem_of_mem_filter hc)
  -- Each candidate that is added has the key of one before it, so it is dropped.
  have hagain : ∀ c ∈ x.candidates.filter (·.isEligible),
      ∃ a ∈ d.candidates.filter (·.isEligible), a.key = c.key := by
    intro c hc
    obtain ⟨hc, heligible⟩ := List.mem_filter.mp hc
    obtain ⟨a, ha, haeligible, hkey⟩ := h.candidates c hc heligible
    exact ⟨a, List.mem_filter.mpr ⟨ha, haeligible⟩, hkey⟩
  rw [hall, Candidate.dedup_append_of_keys _ hagain, ← hfixed, ← List.map_append,
    ← List.filter_append, Candidate.dedup_map (f := (·.renumber f)) (fun _ => rfl),
    List.filterMap_map]
  exact List.filterMap_congr fun c _ => ((c.twin_renumber f).describe_eq halike m crateName).symm

/-- A file that adds nothing to those before it makes no difference to what is found. -/
theorem descriptors_extractAnyway_insert {o : Cfg.Options} {us : List SourceUnit} {u : SourceUnit}
    (h : (Declarations.ofUnits o 0 us).Covers
      (Declarations.ofUnit o (Declarations.scopeCountOf us) u)) (vs : List SourceUnit)
    (stop : Cancellation) :
    ((Program.mk (us ++ u :: vs) o).extractAnyway m crateName stop).descriptors =
      ((Program.mk (us ++ vs) o).extractAnyway m crateName stop).descriptors := by
  refine Extraction.descriptors_pass_congr ?_ stop 0
  refine (filterMap_describe_liveCandidates _).trans (.trans ?_
    (filterMap_describe_liveCandidates _).symm)
  have hlength := Declarations.length_scopes_ofUnits o 0 us
  have hbefore : ∀ c ∈ (Declarations.ofUnits o 0 us).candidates,
      c.scope < (Declarations.ofUnits o 0 us).scopes.length := fun c hc => by
    have hlt := Declarations.scope_lt_of_mem_ofUnits hc
    rwa [Nat.zero_add, ← hlength] at hlt
  rw [scopes, scopes, declarations, declarations, Declarations.ofUnits_insert,
    Declarations.ofUnits_append, Nat.zero_add, ← hlength]
  rw [← hlength] at h
  exact filterMap_describe_of_covers h _ hbefore

/-- What is found in a program is found in its files with a module alone. -/
theorem descriptors_extractAnyway_inTree (p : Program) (stop : Cancellation) :
    (p.inTree.extractAnyway m crateName stop).descriptors =
      (p.extractAnyway m crateName stop).descriptors := by
  obtain ⟨files, o⟩ := p
  suffices h : ∀ us, ((Program.mk (us ++ files.filter (·.module?.isSome)) o).extractAnyway m
      crateName stop).descriptors =
        ((Program.mk (us ++ files) o).extractAnyway m crateName stop).descriptors from h []
  induction files with
  | nil => exact fun _ => rfl
  | cons u files ih =>
    intro us
    cases hu : u.module? with
    | none =>
      rw [List.filter_cons_of_neg (by simp [hu]), ih,
        descriptors_extractAnyway_insert (Declarations.covers_outside hu _)]
    | some path =>
      rw [List.filter_cons_of_pos (by simp [hu])]
      have hrest := ih (us ++ [u])
      simp only [List.append_assoc, List.singleton_append] at hrest
      exact hrest

theorem mentions_insert {us vs : List SourceUnit} {o : Cfg.Options} (u : SourceUnit)
    {name : String} (h : (Program.mk (us ++ vs) o).mentions name = true) :
    (Program.mk (us ++ u :: vs) o).mentions name = true := by
  have hsub : us ++ vs ⊆ us ++ u :: vs :=
    ((List.Sublist.refl us).append (List.sublist_cons_self u vs)).subset
  unfold mentions at *
  rw [List.any_eq_true] at *
  obtain ⟨v, hv, hname⟩ := h
  exact ⟨v, hsub hv, hname⟩

/-- **Files outside do not interfere.** If the marker's crate is mentioned by a file with a module, a
file without one may be put in anywhere, whatever it holds: the same is found, under every
cancellation. -/
theorem descriptors_extract_insert (o : Cfg.Options) (us vs : List SourceUnit) {u : SourceUnit}
    (hu : u.module? = none)
    (hmentions : ∃ v ∈ us ++ vs, v.module?.isSome = true ∧ m.crateName ∈ v.source.mentions)
    (stop : Cancellation) :
    ((Program.mk (us ++ u :: vs) o).extract m crateName stop).descriptors =
      ((Program.mk (us ++ vs) o).extract m crateName stop).descriptors := by
  have hwithout : (Program.mk (us ++ vs) o).mentions m.crateName = true := by
    obtain ⟨v, hv, -, hname⟩ := hmentions
    rw [mentions, List.any_eq_true]
    exact ⟨v, hv, List.contains_iff_mem.mpr hname⟩
  rw [descriptors_extract_eq_ite, descriptors_extract_eq_ite, if_pos (mentions_insert u hwithout),
    if_pos hwithout]
  exact descriptors_extractAnyway_insert (Declarations.covers_outside hu _) vs stop

/-- A file that is the crate root, or that is in no module. -/
def unitOfText (path : String) (inTree : Bool) (text : String) : SourceUnit :=
  ⟨⟨path⟩, if inTree then some .root else none, inTree,
    (Syntax.SourceFile.parse? text).getD ⟨[], []⟩⟩

/-- The orphan in front declares an enum of the same name, and means another attribute by it. -/
theorem descriptors_extract_insert_orphan :
    let root := unitOfText "src/lib.rs" true "use a::b;\n#[b(alias = \"c\")] pub enum D { E }"
    let orphan := unitOfText "src/bin/lib.rs" false
      "use c::b;\nmod m { pub use a::b; }\n#[m::b] pub enum D { F }"
    (orphan.module? = none ∧ root.module?.isSome = true ∧ "a" ∈ root.source.mentions) ∧
      ((Program.mk [orphan, root] .none).extract ⟨["a", "b"]⟩ "crate" .never).descriptors =
        [⟨"crate::D", some "c"⟩] := by
  intro root orphan
  obtain ⟨hmentions, halone⟩ : "a" ∈ root.source.mentions ∧
      ((Program.mk [root] .none).extract ⟨["a", "b"]⟩ "crate" .never).descriptors =
        [⟨"crate::D", some "c"⟩] := by
    decide +kernel
  refine ⟨⟨rfl, rfl, hmentions⟩, ?_⟩
  rw [← halone]
  exact descriptors_extract_insert (m := ⟨["a", "b"]⟩) .none [] [root] rfl
    ⟨root, List.mem_singleton_self root, rfl, hmentions⟩ .never

end Program

end EnumCatalog
