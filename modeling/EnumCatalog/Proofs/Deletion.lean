import EnumCatalog.Proofs.Mentions
import EnumCatalog.Proofs.Resolution

/-!
# Deleting what is not compiled

An item whose own `cfg` attributes are known not to hold is left out of the build, so deleting it
should make no difference. For the candidates it makes none: those that remain live are the same,
up to the numbers of their scopes (`Spot.liveCandidates_delete`). But the imports of such an item
still count, and the scopes of such a module are still found. So deleting it makes a difference
exactly if it changes which attributes of the live candidates are markers, or what these ask for
(`Spot.extract_deletion`).

For an enum that is impossible. For a `use` or `extern crate` declaration it is impossible if every
name it binds is bound again further down and it takes everything from nowhere; for a module in
braces, if each module it holds has been declared before.
-/

set_option autoImplicit false

namespace EnumCatalog

open Syntax (Attribute Item Enum ModuleHead Fragment)
open Syntax.Item (scopeCountAll)

/-! ## 1. The attributes of an item -/

namespace Syntax

/-- The attributes of an item, if it is one of those that are looked into. -/
def Item.attributes : Item → List Attribute
  | .enum e => e.attrs
  | .fileModule h => h.attrs
  | .inlineModule h _ => h.attrs
  | .use u => u.attrs
  | .externCrate x => x.attrs
  | .other _ => []

end Syntax

/-! ## 2. Spots -/

/-- A site in a file of a program: the files around it, the file, of which the items do not count,
and the site in it. -/
structure Spot where
  options : Cfg.Options
  before : List SourceUnit
  unit : SourceUnit
  site : Site
  after : List SourceUnit

namespace Spot

/-- The program with items put in. -/
def program (t : Spot) (xs : List Item) : Program :=
  ⟨t.before ++ t.unit.withItems (t.site.fill xs) :: t.after, t.options⟩

/-- The number of scopes before the spot. -/
def first (t : Spot) : Nat := Declarations.scopeCountOf t.before + t.site.scopeCountBefore

/-- The number of the scope that the spot is directly in. -/
def own (t : Spot) : ScopeId := Declarations.scopeCountOf t.before + t.site.ownBefore

/-- Every item of a program stands at a spot. -/
theorem exists_program_eq {p : Program} {u : SourceUnit} {s : Site} {xs : List Item}
    (hu : u ∈ p.files) (hs : s.fill xs = u.source.items) :
    ∃ t : Spot, t.unit = u ∧ t.site = s ∧ t.program xs = p := by
  obtain ⟨before, after, hfiles⟩ := List.append_of_mem hu
  refine ⟨⟨p.options, before, u, s, after⟩, rfl, rfl, ?_⟩
  rw [program, hs, SourceUnit.withItems, ← hfiles]

theorem exists_around (t : Spot) :
    ∃ a : Declarations.Around, a.outer.length = t.own ∧ a.first 0 = t.first ∧
      (∀ c ∈ a.before, c.scope < a.first 0) ∧
      ∀ xs, (t.program xs).declarations = a.put 0 (.ofItems (t.site.surroundings xs))
        (Declarations.ofItems t.options ((Place.ofUnit t.unit).descend t.options t.site.heads)
          (a.own 0) (a.first 0) xs) := by
  obtain ⟨a, houter, hn, hb, hput⟩ := Declarations.exists_around_units t.options 0 t.before t.unit
    t.site t.after
  exact ⟨a, houter, by rw [hn, Nat.zero_add, first], hb, hput⟩

theorem mentions_program (t : Spot) (xs : List Item) {crateName : String}
    (h : (t.program []).mentions crateName = true) :
    (t.program xs).mentions crateName = true := by
  unfold Program.mentions program at *
  rw [List.any_append, List.any_cons, Bool.or_eq_true, Bool.or_eq_true] at h ⊢
  refine h.imp_right (Or.imp_left fun hu => ?_)
  rw [List.contains_iff_mem] at hu ⊢
  rw [Syntax.SourceFile.mentions, Fragment.mentions_append, List.mem_append] at hu ⊢
  exact hu.imp_right fun hn => Syntax.Item.mem_mentions_fill_iff.mpr (Or.inl hn)

end Spot

/-! ## 3. The candidates that remain -/

namespace Declarations

/-- Nothing within an item that is left out of the build is compiled. -/
theorem disabled_of_mem_ofItem {o : Cfg.Options} {p : Place} {scope next : ScopeId} {x : Item}
    (hx : o.enabled x.attributes = some false) {c : Candidate}
    (hc : c ∈ (ofItem o p scope next x).candidates) : c.enabled = some false := by
  cases x with
  | enum e =>
    rw [ofItem, ofEnum] at hc
    split at hc
    · rw [List.mem_singleton.mp hc]
      exact (Cfg.Verdict.and_eq_false_iff _ _).mpr (Or.inr hx)
    · cases hc
  | inlineModule h items =>
    rw [candidates_ofItem_inlineModule] at hc
    obtain ⟨s, -, hstands, -⟩ := exists_site_of_mem_ofItems hc
    have hplace : (p.within o h).enabled = some false :=
      (Cfg.Verdict.and_eq_false_iff _ _).mpr (Or.inr hx)
    rw [hstands.enabled]
    exact (Cfg.Verdict.and_eq_false_iff _ _).mpr
      (Or.inl (Place.disabled_descend o _ s.heads hplace))
  | _ => cases hc

end Declarations

namespace Candidate

@[simp] theorem key_renumber (f : ScopeId → ScopeId) (c : Candidate) :
    (c.renumber f).key = c.key := rfl

end Candidate

namespace Spot

variable {t : Spot} {x : Item}

/-- The numbers of the scopes when an item is put in. -/
def shift (t : Spot) (x : Item) : ScopeId → ScopeId := shiftFrom t.first x.scopeCount

/-- The candidates of an item come in between those of the program without it. -/
theorem candidates_program (t : Spot) (x : Item) :
    ∃ before after : List Candidate, (∀ c ∈ before, c.scope < t.first) ∧
      (t.program []).declarations.candidates = before ++ after ∧
      ∃ place own, (t.program [x]).declarations.candidates =
        before ++ (Declarations.ofItem t.options place own t.first x).candidates ++
          after.map (·.renumber (t.shift x)) := by
  obtain ⟨a, -, hfirst, hbefore, hput⟩ := t.exists_around
  refine ⟨a.before, a.after, hfirst ▸ hbefore, ?_,
    (Place.ofUnit t.unit).descend t.options t.site.heads, a.own 0, ?_⟩
  · have hid : a.after.map (·.renumber (shiftFrom (a.first 0) 0)) = a.after := by
      simp [Candidate.renumber]
    rw [hput]
    show a.before ++ [] ++ a.after.map (·.renumber (shiftFrom (a.first 0) 0)) = _
    rw [hid, List.append_nil]
  · rw [hput, Declarations.Around.put, Declarations.length_scopes_ofItems, hfirst,
      Declarations.ofItems_cons, Declarations.candidates_append, scopeCountAll, scopeCountAll,
      Nat.add_zero]
    show a.before ++ (_ ++ []) ++ _ = _
    rw [List.append_nil]
    rfl

/-- The live candidates of a program are the same without an item that is left out of the build, up
to the numbers of their scopes. -/
theorem liveCandidates_delete (hx : t.options.enabled x.attributes = some false) :
    (t.program [x]).liveCandidates =
      (t.program []).liveCandidates.map (·.renumber (t.shift x)) := by
  obtain ⟨before, after, hbefore, hwithout, place, own, hwith⟩ := t.candidates_program x
  -- Those before the item keep their numbers, and those of the item are not live.
  have hkept : before.map (·.renumber (t.shift x)) = before :=
    Candidate.map_renumber_shiftFrom_of_lt hbefore
  have hdead : (Declarations.ofItem t.options place own t.first x).candidates.filter
      (·.enabled != some false) = [] := by
    rw [List.filter_eq_nil_iff]
    intro c hc
    simp [Declarations.disabled_of_mem_ofItem hx hc]
  have hall : (t.program [x]).declarations.candidates.filter (·.enabled != some false) =
      ((t.program []).declarations.candidates.map (·.renumber (t.shift x))).filter
        (·.enabled != some false) := by
    rw [hwith, hwithout, List.map_append, hkept, List.filter_append, List.filter_append, hdead,
      List.append_nil, List.filter_append]
  unfold Program.liveCandidates
  rw [hall, List.filter_map, ← Candidate.dedup_map (fun c => c.key_renumber (t.shift x))]
  rfl

end Spot

/-! ## 4. What the deletion of an item changes -/

namespace Candidate

variable {ss ss' : Scopes} {m : Marker} {crateName : String} {c : Candidate} {path : ModulePath}

theorem describe_of_nameableIn (hn : c.NameableIn path) :
    c.describe ss m crateName =
      if c.Tagged ss m then some ⟨path.qualify crateName c.name, c.lastAlias ss m⟩ else none := by
  split
  case isTrue ht => exact describe_eq_some_iff.mpr ⟨ht, rfl, path, hn, rfl⟩
  case isFalse ht =>
    cases hd : c.describe ss m crateName with
    | none => rfl
    | some d => exact absurd (describe_eq_some_iff.mp hd).1 ht

theorem describe_of_not_nameable (hn : ¬ ∃ path, c.NameableIn path) :
    c.describe ss m crateName = none := by
  cases hd : c.describe ss m crateName with
  | none => rfl
  | some d =>
    obtain ⟨-, -, path, h, -⟩ := describe_eq_some_iff.mp hd
    exact absurd ⟨path, h⟩ hn

/-- Two candidates carry the marker alike: both or neither, and they ask for the same name. -/
def MarkedAlike (ss ss' : Scopes) (m : Marker) (c c' : Candidate) : Prop :=
  (c.Tagged ss m ↔ c'.Tagged ss' m) ∧ c.lastAlias ss m = c'.lastAlias ss' m

instance (ss ss' : Scopes) (m : Marker) (c c' : Candidate) :
    Decidable (c.MarkedAlike ss ss' m c') :=
  inferInstanceAs (Decidable (_ ∧ _))

theorem lastAlias_of_not_tagged (h : ¬ c.Tagged ss m) : c.lastAlias ss m = none := by
  have hnil : c.markers ss m = [] := by
    by_contra hne
    exact h (markers_ne_nil_iff.mp hne)
  rw [lastAlias, hnil]
  rfl

theorem describe_renumber_eq_iff {f : ScopeId → ScopeId} (hn : c.NameableIn path) :
    (c.renumber f).describe ss' m crateName = c.describe ss m crateName ↔
      c.MarkedAlike ss ss' m (c.renumber f) := by
  have hname : (c.renumber f).name = c.name := rfl
  rw [describe_of_nameableIn hn, describe_of_nameableIn (c := c.renumber f) hn, MarkedAlike, hname]
  by_cases h : c.Tagged ss m <;> by_cases h' : (c.renumber f).Tagged ss' m
  · simp [h, h', eq_comm]
  · simp [h, h']
  · simp [h, h']
  · simp [h, h', lastAlias_of_not_tagged]

end Candidate

/-- Selections from a list by which no two elements are selected as the same thing agree only if
they do so on each element. -/
theorem filterMap_eq_filterMap_iff {α β γ : Type} {f g : α → Option β} (key : β → γ) {l : List α}
    (hkey : ∀ a ∈ l, ∀ b ∈ l, ∀ d e, f a = some d → g b = some e → key d = key e → a = b) :
    l.filterMap f = l.filterMap g ↔ ∀ a ∈ l, f a = g a := by
  constructor
  · intro h a ha
    cases hf : f a with
    | some d =>
      have hd : d ∈ l.filterMap g := h ▸ List.mem_filterMap.mpr ⟨a, ha, hf⟩
      obtain ⟨b, hb, hg⟩ := List.mem_filterMap.mp hd
      rw [hkey a ha b hb d d hf hg rfl, hg]
    | none =>
      cases hg : g a with
      | none => rfl
      | some e =>
        have he : e ∈ l.filterMap f := h ▸ List.mem_filterMap.mpr ⟨a, ha, hg⟩
        obtain ⟨b, hb, hfb⟩ := List.mem_filterMap.mp he
        rw [hkey b hb a ha e e hfb hg rfl, hf] at hfb
        cases hfb
  · exact fun h => List.filterMap_congr h

namespace Spot

variable {t : Spot} {x : Item} {m : Marker} {crateName : String}

/-- The descriptors with the item, read off the candidates without it. -/
theorem descriptors_with (hx : t.options.enabled x.attributes = some false)
    (hm : (t.program []).mentions m.crateName = true) :
    ((t.program [x]).extract m crateName .never).descriptors =
      (t.program []).liveCandidates.filterMap fun c =>
        (c.renumber (t.shift x)).describe (t.program [x]).scopes m crateName := by
  rw [Program.descriptors_extract (t.mentions_program [x] hm), liveCandidates_delete hx,
    List.filterMap_map]
  rfl

/-- Candidates whose markers stay as they are leave the descriptors as they are. -/
theorem descriptors_eq_of_markedAlike (hx : t.options.enabled x.attributes = some false)
    (hm : (t.program []).mentions m.crateName = true)
    (h : ∀ c ∈ (t.program []).liveCandidates, ∀ path, c.NameableIn path →
      c.MarkedAlike (t.program []).scopes (t.program [x]).scopes m (c.renumber (t.shift x))) :
    ((t.program [x]).extract m crateName .never).descriptors =
      ((t.program []).extract m crateName .never).descriptors := by
  rw [descriptors_with hx hm, Program.descriptors_extract hm]
  refine List.filterMap_congr fun c hc => ?_
  by_cases hn : ∃ path, c.NameableIn path
  · obtain ⟨path, hn⟩ := hn
    exact (Candidate.describe_renumber_eq_iff hn).mpr (h c hc path hn)
  · rw [Candidate.describe_of_not_nameable hn,
      Candidate.describe_of_not_nameable (c := c.renumber (t.shift x)) hn]

/-- The descriptors stay as they are only if the markers of all candidates do. -/
theorem markedAlike_of_descriptors_eq (hx : t.options.enabled x.attributes = some false)
    (hm : (t.program []).mentions m.crateName = true) (hp : (t.program []).HasNamedModules)
    (h : ((t.program [x]).extract m crateName .never).descriptors =
      ((t.program []).extract m crateName .never).descriptors)
    {c : Candidate} (hc : c ∈ (t.program []).liveCandidates) {path : ModulePath}
    (hn : c.NameableIn path) :
    c.MarkedAlike (t.program []).scopes (t.program [x]).scopes m (c.renumber (t.shift x)) := by
  rw [descriptors_with hx hm, Program.descriptors_extract hm,
    filterMap_eq_filterMap_iff (·.qualifiedName) ?_] at h
  · exact (Candidate.describe_renumber_eq_iff hn).mp (h c hc)
  -- Live candidates of one qualified name are one candidate.
  · intro a ha b hb d e hd he hname
    obtain ⟨-, -, q, hna, hqa⟩ := Candidate.describe_eq_some_iff.mp hd
    obtain ⟨-, -, r, hnb, hqb⟩ := Candidate.describe_eq_some_iff.mp he
    exact Program.eq_of_qualify_eq hp ha hb hna hnb (hqa.symm.trans (hname.trans hqb))

/-- Scopes in which every candidate finds what it found leave the descriptors as they are. -/
theorem descriptors_eq_of_alike (hx : t.options.enabled x.attributes = some false)
    (hm : (t.program []).mentions m.crateName = true)
    (h : Scopes.Alike (fun i j => j = t.shift x i) (t.program []).scopes (t.program [x]).scopes) :
    ((t.program [x]).extract m crateName .never).descriptors =
      ((t.program []).extract m crateName .never).descriptors := by
  rw [descriptors_with hx hm, Program.descriptors_extract hm]
  exact List.filterMap_congr fun c _ => ((c.twin_renumber (t.shift x)).describe_eq h m crateName).symm

/-- A declaration without modules makes no difference if it leaves the imports around it as they
are. -/
theorem descriptors_eq_of_imports (hx : t.options.enabled x.attributes = some false)
    (hm : (t.program []).mentions m.crateName = true) (hcount : x.scopeCount = 0)
    (his : (Imports.ofItems (t.site.surroundings [])).Equiv
      (Imports.ofItems (t.site.surroundings [x]))) :
    ((t.program [x]).extract m crateName .never).descriptors =
      ((t.program []).extract m crateName .never).descriptors := by
  obtain ⟨a, -, -, -, hput⟩ := t.exists_around
  have hscopes : ∀ xs, scopeCountAll xs = 0 → (t.program xs).scopes =
      ⟨a.outer ++ ⟨a.module?, .ofItems (t.site.surroundings xs)⟩ :: (a.beside ++ a.beyond)⟩ := by
    intro xs hxs
    have hnil : (Declarations.ofItems t.options
        ((Place.ofUnit t.unit).descend t.options t.site.heads) (a.own 0) (a.first 0) xs).scopes =
          [] := by
      rw [← List.length_eq_zero_iff, Declarations.length_scopes_ofItems, hxs]
    rw [Program.scopes, hput, Declarations.Around.put, hnil]
    simp [Declarations.Around.scopesBefore]
  have hshift : t.shift x = id := by
    funext i
    rw [shift, hcount, shiftFrom_zero, id]
  refine descriptors_eq_of_alike hx hm ?_
  rw [hshift, hscopes [] rfl, hscopes [x] (by simp [scopeCountAll, hcount])]
  exact Scopes.alike_of_equiv his

/-- A module in braces makes no difference if each of its modules has been declared before. -/
theorem descriptors_eq_of_declared_before {h : ModuleHead} {items : List Item}
    (hx : t.options.enabled h.attrs = some false)
    (hm : (t.program []).mentions m.crateName = true)
    (hbefore : ∀ root, t.unit.module? = some root →
      ∀ path ∈ (Item.inlineModule h items).modules (root.descend t.site.heads),
        ∃ s ∈ (t.program []).scopes.list.take t.first, s.module? = some path) :
    ((t.program [.inlineModule h items]).extract m crateName .never).descriptors =
      ((t.program []).extract m crateName .never).descriptors := by
  obtain ⟨a, -, hfirst, -, hput⟩ := t.exists_around
  let place := (Place.ofUnit t.unit).descend t.options t.site.heads
  let xs := (Declarations.ofItems t.options place (a.own 0) (a.first 0)
    [.inlineModule h items]).scopes
  let is := Imports.ofItems (t.site.surroundings [])
  have his : Imports.ofItems (t.site.surroundings [.inlineModule h items]) = is :=
    Imports.ofItems_surroundings_eq t.site rfl
  have hlen : (a.scopesBefore is).length = t.first := by
    rw [← hfirst, a.first_eq 0 is, Nat.zero_add]
  have hxs : xs.length = (Item.inlineModule h items).scopeCount := by
    rw [Declarations.length_scopes_ofItems, scopeCountAll, scopeCountAll, Nat.add_zero]
  -- The scopes of the module come behind all that are declared before it.
  have hwithout : (t.program []).scopes = ⟨a.scopesBefore is ++ a.beyond⟩ := by
    rw [Program.scopes, hput, Declarations.Around.put, Declarations.ofItems]
    simp [is]
  have hwith : (t.program [.inlineModule h items]).scopes =
      ⟨a.scopesBefore is ++ xs ++ a.beyond⟩ := by
    rw [Program.scopes, hput, Declarations.Around.put, his]
  refine descriptors_eq_of_alike hx hm ?_
  rw [hwith, hwithout, shift, ← hlen, ← hxs]
  refine Scopes.alike_insert a.beyond fun s hs path hpath => ?_
  obtain ⟨root, hroot, hmem⟩ := Declarations.modules_of_mem_scopes_ofItems hs path hpath
  rw [hwithout, ← hlen, List.take_left] at hbefore
  rw [Place.module?_descend, Option.map_eq_some_iff] at hroot
  obtain ⟨unitRoot, hunit, rfl⟩ := hroot
  exact hbefore unitRoot hunit path (by simpa [Item.modulesAll] using hmem)

theorem descriptors_eq_of_enum {e : Enum} (hx : t.options.enabled e.attrs = some false)
    (hm : (t.program []).mentions m.crateName = true) :
    ((t.program [.enum e]).extract m crateName .never).descriptors =
      ((t.program []).extract m crateName .never).descriptors := by
  refine descriptors_eq_of_imports hx hm rfl ?_
  rw [Imports.ofItems_surroundings_eq t.site rfl]
  exact Imports.Equiv.refl _

/-- **Deleting what is not compiled.** An item that is left out of the build by its own attributes
may be deleted if that leaves the markers of all live candidates as they are, and only then. It does
if the item is an enum; if it is a declaration without modules and the imports around it stay
equivalent; and if it is a module in braces and each of its modules has been declared before. -/
theorem extract_deletion (t : Spot) (x : Item) (m : Marker) (crateName : String)
    (hx : t.options.enabled x.attributes = some false)
    (hm : (t.program []).mentions m.crateName = true) :
    let deleted := ((t.program []).extract m crateName .never).descriptors
    let kept := ((t.program [x]).extract m crateName .never).descriptors
    let unchanged := ∀ c ∈ (t.program []).liveCandidates, ∀ path, c.NameableIn path →
      c.MarkedAlike (t.program []).scopes (t.program [x]).scopes m (c.renumber (t.shift x))
    (unchanged → kept = deleted) ∧
      ((t.program []).HasNamedModules → kept = deleted → unchanged) ∧
      (∀ e, x = .enum e → kept = deleted) ∧
      (x.scopeCount = 0 → (Imports.ofItems (t.site.surroundings [])).Equiv
        (Imports.ofItems (t.site.surroundings [x])) → kept = deleted) ∧
      ∀ h items, x = .inlineModule h items →
        (∀ root, t.unit.module? = some root → ∀ path ∈ x.modules (root.descend t.site.heads),
          ∃ s ∈ (t.program []).scopes.list.take t.first, s.module? = some path) →
        kept = deleted := by
  intro deleted kept unchanged
  refine ⟨descriptors_eq_of_markedAlike hx hm, ?_, ?_, descriptors_eq_of_imports hx hm, ?_⟩
  · intro hp heq c hc path hn
    exact markedAlike_of_descriptors_eq hx hm hp heq hc hn
  · rintro e rfl
    exact descriptors_eq_of_enum hx hm
  · rintro h items rfl hbefore
    exact descriptors_eq_of_declared_before hx hm hbefore

/-- An item of a text that is the crate root, and its spot. -/
def ofRootText (text : String) (n : Nat) : Spot × Item :=
  let items := (Program.ofRootText .none text).files.flatMap (·.source.items)
  (⟨.none, [], ⟨⟨"src/lib.rs"⟩, some .root, true, ⟨[], []⟩⟩,
    .here (items.take n) (items.drop (n + 1)), []⟩, (items[n]?).getD default)

/-- A `use` declaration that is left out of the build, after one by which the marker goes by the
same name. -/
def hidingUse : Spot × Item :=
  ofRootText "use a::b;\n#[cfg(any())]\nuse c::b;\n#[b]\npub enum D { E }" 1

/-- Such a declaration takes the marker's name away. -/
theorem not_markedAlike_hidingUse :
    hidingUse.1.options.enabled hidingUse.2.attributes = some false ∧
      ((hidingUse.1.program []).extract ⟨["a", "b"]⟩ "crate" .never).descriptors =
        [⟨"crate::D", none⟩] ∧
      ((hidingUse.1.program [hidingUse.2]).extract ⟨["a", "b"]⟩ "crate" .never).descriptors = [] ∧
      ¬ ∀ c ∈ (hidingUse.1.program []).liveCandidates, ∀ path, c.NameableIn path →
        c.MarkedAlike (hidingUse.1.program []).scopes (hidingUse.1.program [hidingUse.2]).scopes
          ⟨["a", "b"]⟩ (c.renumber (hidingUse.1.shift hidingUse.2)) := by
  obtain ⟨hx, hm, hdeleted, hkept⟩ :
      hidingUse.1.options.enabled hidingUse.2.attributes = some false ∧
        (hidingUse.1.program []).mentions "a" = true ∧
        ((hidingUse.1.program []).extract ⟨["a", "b"]⟩ "crate" .never).descriptors =
          [⟨"crate::D", none⟩] ∧
        ((hidingUse.1.program [hidingUse.2]).extract ⟨["a", "b"]⟩ "crate" .never).descriptors =
          [] := by
    decide +kernel
  refine ⟨hx, hdeleted, hkept, fun h => ?_⟩
  have heq := (extract_deletion hidingUse.1 hidingUse.2 ⟨["a", "b"]⟩ "crate" hx hm).1 h
  rw [hdeleted, hkept] at heq
  cases heq

/-- A module that is left out of the build, before the module of the same name that is not. -/
def hidingModule : Spot × Item :=
  ofRootText ("use crate::m::t;\n#[cfg(any())]\nmod m { use c::t; }\nmod m { use a::t; }\n" ++
    "#[t]\npub enum D { E }") 1

/-- Such a module is found in place of the one that is compiled. -/
theorem descriptors_ne_hidingModule :
    hidingModule.1.options.enabled hidingModule.2.attributes = some false ∧
      ((hidingModule.1.program []).extract ⟨["a", "t"]⟩ "crate" .never).descriptors =
        [⟨"crate::D", none⟩] ∧
      ((hidingModule.1.program [hidingModule.2]).extract ⟨["a", "t"]⟩ "crate" .never).descriptors =
        [] := by
  decide +kernel

end Spot

end EnumCatalog
