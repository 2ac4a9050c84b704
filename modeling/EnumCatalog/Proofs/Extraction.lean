import EnumCatalog.Extraction
import EnumCatalog.Proofs.Dedup
import EnumCatalog.Proofs.QualifiedName
import EnumCatalog.Proofs.Site
import Mathlib.Data.List.Induction

/-!
# What extraction finds

A pass that is never cancelled keeps of each candidate its description (`Candidate.describe`), so
the descriptors of a program are read off its live candidates one by one (`descriptors_extract`).
What remains is to say when a candidate has a description, and which (`describe_eq_some_iff`).

From this come two results. Every descriptor describes an enum that can be named and is compiled for
certain, and no two descriptors have one name (`extract_sound`). And of the enums that deserve a
descriptor exactly those have one whose declaration is not first met as a candidate that is skipped
(`exists_descriptor_iff`). The second falls short of completeness: only candidates that are *known*
to be left out give way to a later one of the same name, while one whose `cfg` is undecided takes
its place.
-/

set_option autoImplicit false

namespace EnumCatalog

open Syntax (Attribute Meta Enum ModuleHead)

/-! ## 1. Database names -/

namespace Syntax.Attribute

/-- The database names among the arguments of an attribute. There are none if it has no list of
arguments, or one that cannot be read. -/
def aliasNames (a : Attribute) : List String :=
  ((a.arguments?.bind Meta.listOfTokens?).getD []).filterMap Meta.aliasName?

theorem aliasName?_eq (a : Attribute) : a.aliasName? = a.aliasNames.getLast? := by
  unfold aliasName? aliasNames
  cases a.arguments? with
  | none => rfl
  | some arguments => cases h : Meta.listOfTokens? arguments <;> simp [h]

end Syntax.Attribute

theorem getLast?_filterMap_getLast? {α β : Type} (f : α → List β) (l : List α) :
    (l.filterMap fun a => (f a).getLast?).getLast? = (l.flatMap f).getLast? := by
  induction l using List.reverseRecOn with
  | nil => rfl
  | append_singleton l a ih =>
    rw [List.filterMap_append, List.flatMap_append, List.getLast?_append, List.getLast?_append, ih]
    congr 1
    cases h : (f a).getLast? <;> simp [h]

/-! ## 2. Descriptions -/

namespace Candidate

variable {ss : Scopes} {m : Marker} {crateName : String} {c : Candidate}

theorem isMarker_iff {a : Attribute} :
    c.isMarker ss m a = true ↔ m.segments ∈ ss.resolve c.scope a.name := by
  rw [isMarker, List.any_eq_true]
  constructor
  · rintro ⟨path, hpath, heq⟩
    rw [Marker.matchesPath, beq_iff_eq] at heq
    rw [heq]
    exact hpath
  · intro h
    exact ⟨m.segments, h, beq_self_eq_true _⟩

/-- Whether the candidate carries the marker. -/
def Tagged (ss : Scopes) (m : Marker) (c : Candidate) : Prop :=
  ∃ a ∈ c.enum.attrs, m.segments ∈ ss.resolve c.scope a.name

theorem markers_ne_nil_iff : c.markers ss m ≠ [] ↔ c.Tagged ss m := by
  rw [← List.length_pos_iff, markers, List.length_pos_iff_exists_mem]
  simp only [List.mem_filter, isMarker_iff]
  rfl

/-- The database name that a candidate asks for: the last one that any of its markers gives. -/
def lastAlias (ss : Scopes) (m : Marker) (c : Candidate) : Option String :=
  ((c.markers ss m).flatMap Attribute.aliasNames).getLast?

theorem getLast?_aliasNames : ((c.markers ss m).filterMap Attribute.aliasName?).getLast? =
    c.lastAlias ss m := by
  rw [lastAlias, ← getLast?_filterMap_getLast?]
  simp only [Attribute.aliasName?_eq]

/-- The module by which a candidate can be named, if what is known of it lets generated code do
so. -/
def NameableIn (c : Candidate) (path : ModulePath) : Prop :=
  c.module? = some path ∧ c.enum.isGeneric = false ∧ c.enabled ≠ none ∧ c.visible = true

theorem qualifiedName_eq_ok_iff {name : String} :
    c.qualifiedName crateName = .ok name ↔
      ∃ path, c.NameableIn path ∧ name = path.qualify crateName c.name := by
  unfold qualifiedName NameableIn
  cases c.module? with
  | none => simp
  | some path =>
    simp only [Option.some.injEq]
    cases hg : c.enum.isGeneric
    case true => simp
    cases he : c.enabled
    case none => simp
    cases hv : c.visible
    case false => simp
    case true => simp [eq_comm]

/-- The descriptor that a candidate comes to. -/
def describe (ss : Scopes) (m : Marker) (crateName : String) (c : Candidate) : Option Descriptor :=
  (Extraction.examine ss m crateName c).2

theorem describe_eq_some_iff {d : Descriptor} :
    c.describe ss m crateName = some d ↔
      c.Tagged ss m ∧ d.aliasName = c.lastAlias ss m ∧
        ∃ path, c.NameableIn path ∧ d.qualifiedName = path.qualify crateName c.name := by
  unfold describe Extraction.examine
  cases hq : c.qualifiedName crateName with
  | error reason =>
    have hnone : ¬ ∃ path, c.NameableIn path ∧ d.qualifiedName = path.qualify crateName c.name := by
      rw [← qualifiedName_eq_ok_iff, hq]
      exact fun h => by cases h
    simp [hnone]
  | ok name =>
    have hname : (∃ path, c.NameableIn path ∧ d.qualifiedName = path.qualify crateName c.name) ↔
        name = d.qualifiedName := by
      rw [← qualifiedName_eq_ok_iff, hq, Except.ok.injEq]
    rw [hname, ← markers_ne_nil_iff, ← getLast?_aliasNames]
    cases hm : c.markers ss m with
    | nil => simp
    | cons a as =>
      show some (Descriptor.mk name ((a :: as).filterMap Attribute.aliasName?).getLast?) = some d ↔ _
      rw [Option.some.injEq]
      constructor
      · rintro rfl
        exact ⟨List.cons_ne_nil a as, rfl, rfl⟩
      · rintro ⟨-, halias, hname⟩
        rw [hname, ← halias]

end Candidate

/-! ## 3. The pass -/

namespace Extraction

/-- A pass that is never cancelled goes through all candidates. -/
theorem descriptors_pass_never (examine : Candidate → List Note × Option Descriptor) (found : Nat)
    (cs : List Candidate) :
    (pass .never examine found cs).descriptors = cs.filterMap fun c => (examine c).2 := by
  induction cs generalizing found with
  | nil => rfl
  | cons c cs ih =>
    rw [pass, if_neg (by simp [Cancellation.isDue, Cancellation.never])]
    show (examine c).2.toList ++ (pass .never examine _ cs).descriptors = _
    rw [ih]
    cases h : (examine c).2 <;> simp [h]

end Extraction

namespace Program

variable {p : Program} {m : Marker} {crateName : String}

/-- The descriptors of a program are the descriptions of its live candidates. -/
theorem descriptors_extract (hm : p.mentions m.crateName = true) :
    (p.extract m crateName .never).descriptors =
      p.liveCandidates.filterMap (·.describe p.scopes m crateName) := by
  unfold extract
  rw [if_pos hm]
  exact Extraction.descriptors_pass_never _ 0 p.liveCandidates

theorem descriptors_extract_of_not_mentions (hm : p.mentions m.crateName = false) :
    (p.extract m crateName .never).descriptors = [] := by
  unfold extract
  rw [if_neg (by simp [hm])]

theorem liveCandidates_sublist (p : Program) :
    p.liveCandidates.Sublist p.declarations.candidates :=
  (Candidate.dedup_sublist _).trans List.filter_sublist

theorem enabled_ne_false_of_mem_liveCandidates {c : Candidate} (hc : c ∈ p.liveCandidates) :
    c.enabled ≠ some false := by
  simpa using (List.mem_filter.mp (Candidate.mem_of_mem_dedup hc)).2

/-! ## 4. Soundness -/

/-- What the source says of a candidate that generated code can name by the path of a module, and
that is compiled for certain: it is the enum at a site of a file. -/
structure Registrable (p : Program) (c : Candidate) (u : SourceUnit) (s : Site)
    (path : ModulePath) : Prop where
  file : u ∈ p.files
  site : s.fill [.enum c.enum] = u.source.items
  /-- The names of its attributes are looked up where it stands. -/
  scope : p.scopes.get? c.scope = some ⟨some path, .ofItems (s.surroundings [.enum c.enum])⟩
  exported : u.exported = true
  nameable : ∃ root, u.module? = some root ∧ path = root.descend s.heads ∧
    root.AllNameable s.heads c.enum.vis
  notGeneric : c.enum.isGeneric = false
  compiledAround : ∀ h ∈ s.heads, p.options.enabled h.attrs = some true
  compiled : p.options.enabled c.enum.attrs = some true

/-- A descriptor is that of a candidate. -/
structure Describes (p : Program) (m : Marker) (crateName : String) (c : Candidate)
    (d : Descriptor) : Prop where
  tagged : c.Tagged p.scopes m
  aliasName : d.aliasName = c.lastAlias p.scopes m
  named : ∃ u s path, p.Registrable c u s path ∧ d.qualifiedName = path.qualify crateName c.name

/-- Every module that a file of the program defines is named by identifiers. -/
def HasNamedModules (p : Program) : Prop := ∀ u ∈ p.files, ∀ m, u.module? = some m → m.IsNamed

/-- A candidate that can be named and is not left out of the build is one of which the source says
so. -/
theorem registrable_of_nameableIn {c : Candidate} {path : ModulePath}
    (hc : c ∈ p.declarations.candidates) (hn : c.NameableIn path) (he : c.enabled ≠ some false) :
    ∃ u s, p.Registrable c u s path := by
  obtain ⟨u, hu, s, hfill, hstands, j, hj, hget⟩ := Declarations.exists_site_of_mem_ofUnits hc
  obtain ⟨hmodule, hgeneric, hdecided, hvisible⟩ := hn
  have hj : c.scope = j := by rw [hj, Nat.zero_add]
  have hcompiled : c.enabled = some true := by
    cases hv : c.enabled with
    | none => exact absurd hv hdecided
    | some b =>
      cases b
      · exact absurd hv he
      · rfl
  rw [hstands.enabled, Cfg.Verdict.and_eq_true_iff, Place.enabled_descend_iff] at hcompiled
  rw [hstands.visible, Place.exports_descend_iff] at hvisible
  obtain ⟨hexported, root, hroot, hall⟩ := hvisible
  have hpath : path = root.descend s.heads := by
    rw [hstands.module?, Place.module?_descend, hroot] at hmodule
    exact (Option.some.inj hmodule).symm
  refine ⟨u, s, hu, hfill, ?_, hexported, ⟨root, hroot, hpath, hall⟩, hgeneric, hcompiled.1.2,
    hcompiled.2⟩
  rw [hj, ← hmodule]
  exact hget

theorem Registrable.isNamed {c : Candidate} {u : SourceUnit} {s : Site} {path : ModulePath}
    (hr : p.Registrable c u s path) (hp : p.HasNamedModules) : path.IsNamed := by
  obtain ⟨root, hroot, rfl, -⟩ := hr.nameable
  intro n hn
  rcases List.mem_append.mp hn with hn | hn
  · exact hp u hr.file root hroot n hn
  · obtain ⟨h, -, rfl⟩ := List.mem_map.mp hn
    exact isIdentName_ident h.ident

theorem isNamed_of_nameableIn {c : Candidate} {path : ModulePath} (hp : p.HasNamedModules)
    (hc : c ∈ p.declarations.candidates) (hn : c.NameableIn path) (he : c.enabled ≠ some false) :
    path.IsNamed := by
  obtain ⟨u, s, hr⟩ := registrable_of_nameableIn hc hn he
  exact hr.isNamed hp

theorem describes_of_describe_eq_some {c : Candidate} {d : Descriptor}
    (hc : c ∈ p.liveCandidates) (hd : c.describe p.scopes m crateName = some d) :
    p.Describes m crateName c d := by
  obtain ⟨htagged, halias, path, hn, hname⟩ := Candidate.describe_eq_some_iff.mp hd
  obtain ⟨u, s, hr⟩ := registrable_of_nameableIn (p.liveCandidates_sublist.subset hc) hn
    (enabled_ne_false_of_mem_liveCandidates hc)
  exact ⟨htagged, halias, u, s, path, hr, hname⟩

/-- Live candidates that can be named by one text are one candidate. -/
theorem eq_of_qualify_eq {a b : Candidate} {q r : ModulePath} (hp : p.HasNamedModules)
    (ha : a ∈ p.liveCandidates) (hb : b ∈ p.liveCandidates) (hq : a.NameableIn q)
    (hr : b.NameableIn r) (h : q.qualify crateName a.name = r.qualify crateName b.name) :
    a = b := by
  have named {c : Candidate} {q : ModulePath} (hc : c ∈ p.liveCandidates) (hn : c.NameableIn q) :
      q.IsNamed := isNamed_of_nameableIn hp (p.liveCandidates_sublist.subset hc) hn
        (enabled_ne_false_of_mem_liveCandidates hc)
  obtain ⟨hpath, hident⟩ := ModulePath.qualify_injective (named ha hq) (named hb hr)
    (isIdentName_ident a.enum.ident) (isIdentName_ident b.enum.ident) h
  have hkey : a.key = b.key := by
    rw [Candidate.key, Candidate.key, hq.1, hr.1, hpath]
    exact congrArg _ hident
  exact List.inj_on_of_nodup_map (Candidate.nodup_keys_dedup _) ha hb hkey

theorem nodup_qualifiedName_extract (hp : p.HasNamedModules) :
    ((p.extract m crateName .never).descriptors.map (·.qualifiedName)).Nodup := by
  cases hm : p.mentions m.crateName with
  | false =>
    rw [descriptors_extract_of_not_mentions hm]
    exact List.nodup_nil
  | true =>
    rw [descriptors_extract hm]
    have hnodup : p.liveCandidates.Pairwise fun a b => a ≠ b :=
      (Candidate.nodup_keys_dedup _).of_map
    refine List.pairwise_map.mpr (List.pairwise_filterMap.mpr (hnodup.imp_of_mem ?_))
    intro a b ha hb hab d hd e he hname
    obtain ⟨-, -, q, hn, hq⟩ := Candidate.describe_eq_some_iff.mp hd
    obtain ⟨-, -, r, hn', hr⟩ := Candidate.describe_eq_some_iff.mp he
    exact hab (eq_of_qualify_eq hp ha hb hn hn' (hq.symm.trans (hname.trans hr)))

/-- What a partial function comes to on a list, it comes to on a part of the list, one by one. -/
theorem exists_sublist_forall₂_filterMap {α β : Type} (f : α → Option β) (as : List α) :
    ∃ kept : List α, kept.Sublist as ∧
      List.Forall₂ (fun a b => a ∈ as ∧ f a = some b) kept (as.filterMap f) := by
  induction as with
  | nil => exact ⟨[], .refl [], .nil⟩
  | cons a as ih =>
    obtain ⟨kept, hkept, hall⟩ := ih
    replace hall := hall.imp fun a' b (h : a' ∈ as ∧ f a' = some b) =>
      (⟨List.mem_cons_of_mem a h.1, h.2⟩ : a' ∈ a :: as ∧ f a' = some b)
    cases ha : f a with
    | none => exact ⟨kept, hkept.cons a, by rwa [List.filterMap_cons_none ha]⟩
    | some b =>
      refine ⟨a :: kept, hkept.cons_cons a, ?_⟩
      rw [List.filterMap_cons_some ha]
      exact .cons ⟨List.mem_cons_self, ha⟩ hall

/-- What is found lists, in source order, descriptions of candidates. -/
theorem exists_sublist_describes (p : Program) (m : Marker) (crateName : String) :
    ∃ cs : List Candidate, cs.Sublist p.declarations.candidates ∧
      List.Forall₂ (p.Describes m crateName) cs (p.extract m crateName .never).descriptors := by
  cases hm : p.mentions m.crateName with
  | false =>
    rw [descriptors_extract_of_not_mentions hm]
    exact ⟨[], List.nil_sublist _, List.Forall₂.nil⟩
  | true =>
    rw [descriptors_extract hm]
    obtain ⟨kept, hkept, hall⟩ :=
      exists_sublist_forall₂_filterMap (·.describe p.scopes m crateName) p.liveCandidates
    exact ⟨kept, hkept.trans p.liveCandidates_sublist,
      hall.imp fun c d h => describes_of_describe_eq_some h.1 h.2⟩

/-- **Soundness**: what is found are descriptions of candidates that can be named and are compiled
for certain, in source order and under different names. -/
theorem extract_sound (p : Program) (m : Marker) (crateName : String) (hp : p.HasNamedModules) :
    ((p.extract m crateName .never).descriptors.map (·.qualifiedName)).Nodup ∧
      ∃ cs : List Candidate, cs.Sublist p.declarations.candidates ∧
        List.Forall₂ (p.Describes m crateName) cs (p.extract m crateName .never).descriptors :=
  ⟨nodup_qualifiedName_extract hp, exists_sublist_describes p m crateName⟩

theorem hasNamedModules_empty (o : Cfg.Options) : (empty o).HasNamedModules := by
  intro u hu
  cases hu

theorem HasNamedModules.addSource? {p q : Program} {path : FsPath} {module? : Option ModulePath}
    {text : String} (hp : p.HasNamedModules) (hm : ∀ m, module? = some m → m.IsNamed)
    (h : p.addSource? path module? text = some q) : q.HasNamedModules := by
  obtain ⟨source, -, rfl⟩ : ∃ source, Syntax.SourceFile.parse? text = some source ∧
      { p with files := p.files ++ [⟨path, module?, true, source⟩] } = q := by
    simpa [Program.addSource?, bind, Option.bind_eq_some_iff] using h
  intro u hu
  rcases List.mem_append.mp hu with hu | hu
  · exact hp u hu
  · rw [List.mem_singleton.mp hu]
    exact hm

/-- The program of one file that is the crate root; it is empty if the text cannot be read. -/
def ofRootText (o : Cfg.Options) (text : String) : Program :=
  ((empty o).addSource? ⟨"src/lib.rs"⟩ (some .root) text).getD (empty o)

theorem hasNamedModules_ofRootText (o : Cfg.Options) (text : String) :
    (ofRootText o text).HasNamedModules := by
  unfold ofRootText
  cases h : (empty o).addSource? ⟨"src/lib.rs"⟩ (some .root) text with
  | none => exact hasNamedModules_empty o
  | some q =>
    refine (hasNamedModules_empty o).addSource? ?_ h
    intro m hm
    rw [← Option.some.inj hm]
    exact ModulePath.isNamed_root

theorem extract_sound_ofRootText :
    let p := ofRootText .none "#[a::b(alias = \"c\")] pub enum C { D }"
    (p.extract ⟨["a", "b"]⟩ "crate" .never).descriptors = [⟨"crate::C", some "c"⟩] ∧
      ((p.extract ⟨["a", "b"]⟩ "crate" .never).descriptors.map (·.qualifiedName)).Nodup ∧
      ∃ cs : List Candidate, cs.Sublist p.declarations.candidates ∧
        List.Forall₂ (p.Describes ⟨["a", "b"]⟩ "crate") cs
          (p.extract ⟨["a", "b"]⟩ "crate" .never).descriptors :=
  ⟨by decide +kernel, extract_sound _ _ _ (hasNamedModules_ofRootText _ _)⟩

/-! ## 5. How far extraction is complete -/

end Program

namespace Candidate

/-- A candidate deserves a descriptor: it has a module and no generic parameters, is compiled for
certain, can be named and carries the marker. -/
def Acceptable (ss : Scopes) (m : Marker) (c : Candidate) (path : ModulePath) : Prop :=
  c.module? = some path ∧ c.enum.isGeneric = false ∧ c.enabled = some true ∧ c.visible = true ∧
    c.Tagged ss m

instance (ss : Scopes) (m : Marker) (c : Candidate) : Decidable (c.Tagged ss m) :=
  inferInstanceAs (Decidable (∃ a ∈ c.enum.attrs, _))

instance (ss : Scopes) (m : Marker) (c : Candidate) (path : ModulePath) :
    Decidable (c.Acceptable ss m path) :=
  inferInstanceAs (Decidable (_ ∧ _))

theorem Acceptable.nameableIn {ss : Scopes} {m : Marker} {c : Candidate} {path : ModulePath}
    (h : c.Acceptable ss m path) : c.NameableIn path :=
  ⟨h.1, h.2.1, by rw [h.2.2.1]; exact Option.some_ne_none _, h.2.2.2.1⟩

/-- Of those that are not left out of the build, the acceptable candidates are the ones that have a
description. -/
theorem acceptable_iff {ss : Scopes} {m : Marker} {crateName : String} {c : Candidate}
    {path : ModulePath} (he : c.enabled ≠ some false) (hm : c.module? = some path) :
    c.Acceptable ss m path ↔ ∃ d, c.describe ss m crateName = some d ∧
      d.qualifiedName = path.qualify crateName c.name := by
  constructor
  · intro h
    exact ⟨⟨path.qualify crateName c.name, c.lastAlias ss m⟩,
      describe_eq_some_iff.mpr ⟨h.2.2.2.2, rfl, path, h.nameableIn, rfl⟩, rfl⟩
  · rintro ⟨d, hd, -⟩
    obtain ⟨htagged, -, q, ⟨-, hgeneric, hdecided, hvisible⟩, -⟩ := describe_eq_some_iff.mp hd
    refine ⟨hm, hgeneric, ?_, hvisible, htagged⟩
    cases hv : c.enabled with
    | none => exact absurd hv hdecided
    | some b =>
      cases b
      · exact absurd hv he
      · rfl

end Candidate

namespace Program

variable {p : Program} {m : Marker} {crateName : String}

/-- The first candidate of a declaration that is not known to be left out of the build. -/
def firstOf? (p : Program) (c : Candidate) : Option Candidate :=
  (p.declarations.candidates.filter (·.enabled != some false)).find? (·.key == c.key)

theorem firstOf?_eq_some_iff {c b : Candidate} :
    p.firstOf? c = some b ↔ b ∈ p.liveCandidates ∧ b.key = c.key := by
  rw [liveCandidates, Candidate.mem_dedup_iff, firstOf?]
  constructor
  · intro h
    have hk : b.key = c.key := by simpa using List.find?_some h
    exact ⟨hk ▸ h, hk⟩
  · rintro ⟨h, hk⟩
    exact hk ▸ h

/-- A candidate of the same key as one in a module has the same module and the same name. -/
theorem module?_and_name_of_key_eq {b c : Candidate} {path : ModulePath}
    (hc : c.module? = some path) (hb : b.key = c.key) :
    b.module? = some path ∧ b.name = c.name := by
  rw [Candidate.key, Candidate.key, hc] at hb
  cases hbm : b.module? with
  | none =>
    rw [hbm] at hb
    cases hb
  | some q =>
    rw [hbm, Candidate.Key.inModule.injEq] at hb
    exact ⟨congrArg some hb.1, hb.2⟩

/-- A candidate is found if the first one of its declaration is acceptable. -/
theorem qualifiedName_mem_extract_of_firstOf? {c first : Candidate} {path : ModulePath}
    (hm : p.mentions m.crateName = true) (hc : c.module? = some path)
    (hfirst : p.firstOf? c = some first) (ha : first.Acceptable p.scopes m path) :
    path.qualify crateName c.name ∈
      (p.extract m crateName .never).descriptors.map (·.qualifiedName) := by
  obtain ⟨hlive, hkey⟩ := firstOf?_eq_some_iff.mp hfirst
  obtain ⟨d, hdesc, hname⟩ := (Candidate.acceptable_iff
    (enabled_ne_false_of_mem_liveCandidates hlive) ha.1).mp ha
  rw [descriptors_extract hm]
  exact List.mem_map.mpr ⟨d, List.mem_filterMap.mpr ⟨first, hlive, hdesc⟩,
    by rw [hname, (module?_and_name_of_key_eq hc hkey).2]⟩

/-- **Completeness, as far as it goes**: an acceptable candidate is found if and only if the first
candidate of its declaration is acceptable too. A first candidate whose `cfg` is undecided, which is
generic or which carries no marker takes the place of those that follow. -/
theorem qualifiedName_mem_extract_iff {c : Candidate} {path : ModulePath}
    (hm : p.mentions m.crateName = true) (hp : p.HasNamedModules)
    (hc : c ∈ p.declarations.candidates) (ha : c.Acceptable p.scopes m path) :
    path.qualify crateName c.name ∈
        (p.extract m crateName .never).descriptors.map (·.qualifiedName) ↔
      ∃ first, p.firstOf? c = some first ∧ first.Acceptable p.scopes m path := by
  have hkey : c.key = .inModule path c.name := by rw [Candidate.key, ha.1]
  constructor
  · rw [descriptors_extract hm]
    intro hmem
    obtain ⟨d, hd, hname⟩ := List.mem_map.mp hmem
    obtain ⟨b, hb, hdesc⟩ := List.mem_filterMap.mp hd
    have hbe := enabled_ne_false_of_mem_liveCandidates hb
    obtain ⟨-, -, q, hn, hq⟩ := Candidate.describe_eq_some_iff.mp hdesc
    rw [hname] at hq
    -- The name leads back to the module and the identifier, that is, to the key.
    obtain ⟨hpath, hident⟩ := ModulePath.qualify_injective
      (isNamed_of_nameableIn hp hc ha.nameableIn (by rw [ha.2.2.1]; decide))
      (isNamed_of_nameableIn hp (p.liveCandidates_sublist.subset hb) hn hbe)
      (isIdentName_ident c.enum.ident) (isIdentName_ident b.enum.ident) hq
    have hbm : b.module? = some path := by rw [hn.1, hpath]
    have hbn : b.name = c.name := hident.symm
    refine ⟨b, firstOf?_eq_some_iff.mpr ⟨hb, ?_⟩,
      (Candidate.acceptable_iff hbe hbm).mpr ⟨d, hdesc, ?_⟩⟩
    · rw [hkey, Candidate.key, hbm, hbn]
    · rw [hname, hbn]
  · rintro ⟨first, hfirst, hacc⟩
    exact qualifiedName_mem_extract_of_firstOf? hm ha.1 hfirst hacc

/-- An enum whose `cfg` is undecided hides the enum of the same name after it, which is tagged and
compiled for certain. -/
theorem qualifiedName_not_mem_extract_ofRootText :
    let p := ofRootText .unknown
      "use a::b;\n#[cfg(unix)]\n#[b] pub enum C { D }\n#[b] pub enum C { E }"
    ∃ c ∈ p.declarations.candidates, c.Acceptable p.scopes ⟨["a", "b"]⟩ .root ∧
      ModulePath.root.qualify "crate" c.name ∉
        (p.extract ⟨["a", "b"]⟩ "crate" .never).descriptors.map (·.qualifiedName) := by
  intro p
  let c := (p.declarations.candidates[1]?).get (by decide +kernel)
  have hc : c ∈ p.declarations.candidates := List.mem_of_getElem? (Option.some_get _).symm
  obtain ⟨hm, ha, hfirst⟩ : p.mentions (Marker.crateName ⟨["a", "b"]⟩) = true ∧
      c.Acceptable p.scopes ⟨["a", "b"]⟩ .root ∧
      (p.firstOf? c).all (fun b => !decide (b.Acceptable p.scopes ⟨["a", "b"]⟩ .root)) = true := by
    decide +kernel
  refine ⟨c, hc, ha, fun hmem => ?_⟩
  obtain ⟨first, hf, hacc⟩ :=
    (qualifiedName_mem_extract_iff hm (hasNamedModules_ofRootText _ _) hc ha).mp hmem
  rw [hf, Option.all_some, decide_eq_true hacc] at hfirst
  cases hfirst

end Program

end EnumCatalog
