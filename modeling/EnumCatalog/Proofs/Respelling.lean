import EnumCatalog.Proofs.Spelling

/-!
# Recognition by identity

A program in which the marker is written as an absolute path may be *respelled*: the module imports
something, and its enums carry the path that goes with it (`Spot.respelled`). Enums that do not ask
for the name which is imported come to the same descriptors (`Spot.IsBare.forall₂_akin`), and the
search for the marker's crate finds it in every spelling (`Spot.mentions_respelled`). So which
spelling is chosen makes no difference (`Spot.descriptors_eq_of_spelling`).

The module in question has no modules and no other imports (`Spot.IsBare`): a module of the name of
the crate, or a second import of everything, could give the same path another meaning.
-/

set_option autoImplicit false

namespace EnumCatalog

open Syntax (Attribute Item Enum Use UseTree Path)
open Scopes (isRelative)

/-! ## 1. Respelling -/

namespace Syntax

/-- What is said, under another name. -/
def Meta.withName (p : Path) : Meta → Meta
  | .path _ => .path p
  | .list _ d arguments => .list p d arguments
  | .value _ v => .value p v

namespace Attribute

def withName (p : Path) (a : Attribute) : Attribute := { a with content := a.content.withName p }

@[simp]
theorem name_withName (p : Path) (a : Attribute) : (a.withName p).name = p := by
  obtain ⟨inner, _ | _ | _⟩ := a <;> rfl

@[simp]
theorem aliasName?_withName (p : Path) (a : Attribute) :
    (a.withName p).aliasName? = a.aliasName? := by
  obtain ⟨inner, _ | _ | _⟩ := a <;> rfl

/-- Whether the attribute's name is written out from a leading double colon on. -/
def isWrittenOut (is : List Ident) (a : Attribute) : Bool := a.name.leading && a.name.idents == is

/-- The attribute with a path in the place of a name that is written out. -/
def respell (is : List Ident) (p : Path) (a : Attribute) : Attribute :=
  if a.isWrittenOut is then a.withName p else a

end Attribute

@[inherit_doc Attribute.respell]
def Enum.respell (is : List Ident) (p : Path) (e : Enum) : Enum :=
  { e with attrs := e.attrs.map (·.respell is p) }

/-- An item with its attributes respelled, if it is an enum. -/
def Item.respell (is : List Ident) (p : Path) : Item → Item
  | .enum e => .enum (e.respell is p)
  | x => x

end Syntax

namespace Syntax.Item

/-- The item brings neither a module nor an import. -/
def IsFlat (x : Item) : Prop := x.scopeCount = 0 ∧ x.imports = []

theorem scopeCount_respell (is : List Ident) (p : Path) (x : Item) :
    (x.respell is p).scopeCount = x.scopeCount := by
  cases x <;> rfl

theorem imports_respell (is : List Ident) (p : Path) (x : Item) :
    (x.respell is p).imports = x.imports := by
  cases x <;> rfl

end Syntax.Item

theorem Wording.scopeCount_eq_zero {crate n : Ident} {above : List Ident} {exported : Ident → Prop}
    {bound : Option Ident} {items : List Item} {p : Path}
    (h : Wording crate above n exported bound items p) {is : List Ident} {xs : List Item}
    (hxs : ∀ x ∈ xs, x.IsFlat) : ∀ x ∈ items ++ xs.map (·.respell is p), x.scopeCount = 0 := by
  intro x hx
  rcases List.mem_append.mp hx with hx | hx
  · rcases h.items_eq with rfl | ⟨u, rfl⟩ | ⟨y, rfl⟩
    · cases hx
    · rw [List.mem_singleton.mp hx]
      rfl
    · rw [List.mem_singleton.mp hx]
      rfl
  · obtain ⟨y, hy, rfl⟩ := List.mem_map.mp hx
    rw [Item.scopeCount_respell]
    exact (hxs y hy).1

theorem Imports.ofItems_eq_nil {xs : List Item} (hxs : ∀ x ∈ xs, x.IsFlat) : ofItems xs = [] := by
  rw [ofItems, List.flatMap_eq_nil_iff]
  exact fun x hx => (hxs x hx).2

/-- Respelled items import what the others import. -/
theorem Imports.ofItems_append_respell (items : List Item) {xs : List Item}
    (hxs : ∀ x ∈ xs, x.IsFlat) (is : List Ident) (p : Path) :
    ofItems (items ++ xs.map (·.respell is p)) = ofItems items := by
  have hnil : (xs.map (·.respell is p)).flatMap Item.imports = [] := by
    rw [List.flatMap_map, List.flatMap_eq_nil_iff]
    intro x hx
    rw [Item.imports_respell]
    exact (hxs x hx).2
  rw [ofItems, List.flatMap_append, hnil, List.append_nil, ofItems]


/-! ## 5. Candidates with respelled attributes -/

namespace Syntax

/-- Attributes of other names than `cfg` may be respelled without a change of what is compiled. -/
theorem filter_cfg_respell (is : List Ident) {p : Path} (hp : p.isWord "cfg" = false)
    (as : List Attribute) :
    (as.map (·.respell is p)).filter (·.name.isWord "cfg") = as.filter (·.name.isWord "cfg") := by
  induction as with
  | nil => rfl
  | cons a as ih =>
    rw [List.map_cons, List.filter_cons, List.filter_cons, ih]
    by_cases ha : a.isWrittenOut is = true
    · have hleading : a.name.leading = true := (Bool.and_eq_true_iff.mp ha).1
      rw [Attribute.respell, if_pos ha, Attribute.name_withName, hp,
        Path.not_isWord_of_leading hleading]
      rfl
    · rw [Attribute.respell, if_neg ha]

end Syntax

theorem Cfg.Options.enabled_respell (o : Options) (is : List Ident) {p : Path}
    (hp : p.isWord "cfg" = false) (as : List Attribute) :
    o.enabled (as.map (·.respell is p)) = o.enabled as := by
  rw [enabled, enabled, Syntax.filter_cfg_respell is hp]

namespace Candidate

/-- The candidate with the attributes of its enum respelled. -/
def respell (is : List Ident) (p : Path) (c : Candidate) : Candidate :=
  { c with enum := c.enum.respell is p }

/-- A candidate comes to the same when its markers are respelled, if the spelling resolves to the
marker and other attributes are the marker as before. -/
theorem akin_respell {ss ss' : Scopes} {m : Marker} {is : List Ident} {p : Path} {c : Candidate}
    (hm : m.segments = is.map (·.name)) (hp : m.segments ∈ ss'.resolve c.scope p)
    (hothers : ∀ a ∈ c.enum.attrs,
      m.segments ∈ ss.resolve c.scope a.name ↔ m.segments ∈ ss'.resolve c.scope a.name) :
    c.Akin ss ss' m (c.respell is p) where
  key := rfl
  enabled := rfl
  qualifiedName _ := rfl
  aliases := by
    refine aliases_eq (List.forall₂_map_right_iff.mpr (List.forall₂_same.mpr fun a ha => ?_))
    rw [Bool.eq_iff_iff, isMarker_iff, isMarker_iff, Attribute.respell]
    split
    case isTrue hwritten =>
      obtain ⟨hleading, hidents⟩ := Bool.and_eq_true_iff.mp hwritten
      have hbefore : m.segments ∈ ss.resolve c.scope a.name := by
        rw [Scopes.resolve, if_pos hleading, ← Path.map_name_idents, beq_iff_eq.mp hidents, hm]
        exact List.mem_singleton_self _
      rw [Attribute.name_withName, Attribute.aliasName?_withName]
      exact ⟨iff_of_true hbefore hp, fun _ => rfl⟩
    case isFalse => exact ⟨hothers a ha, fun _ => rfl⟩

end Candidate

namespace Declarations

/-- An item without modules brings the same candidates, with respelled attributes. -/
theorem candidates_ofItem_respell {o : Cfg.Options} {place : Place} {scope next : ScopeId}
    {is : List Ident} {p : Path} (hp : p.isWord "cfg" = false) {x : Item} (hx : x.scopeCount = 0) :
    (ofItem o place scope next (x.respell is p)).candidates =
      (ofItem o place scope next x).candidates.map (·.respell is p) := by
  cases x with
  | enum e =>
    have hcandidate : isCandidate (e.respell is p) = isCandidate e := by
      rw [isCandidate, isCandidate, Enum.respell, List.isEmpty_map]
    show (ofEnum o place scope (e.respell is p)).candidates =
      (ofEnum o place scope e).candidates.map _
    unfold ofEnum
    rw [hcandidate]
    split
    case isTrue =>
      show [_] = [_]
      rw [Enum.respell, Cfg.Options.enabled_respell o is hp]
      rfl
    case isFalse => rfl
  | inlineModule h items =>
    rw [Syntax.Item.scopeCount] at hx
    cases hx
  | _ => rfl

end Declarations

/-! ## 6. In a program -/

/-- The crate root exports the marker under another name, by a `use` declaration of a file. -/
structure Program.Exports (p : Program) (crate : Ident) (above : List Ident) (n w : Ident) :
    Prop where
  written : ∃ f ∈ p.files, ∃ u : Use, .use u ∈ f.source.items ∧
    UseTree.IsBranch (.rename n w) (crate :: above) u.tree
  target : ∃ root, p.scopes.idOf? .root = some root ∧
    p.scopes.targetOf? root w.name = some ((crate :: above ++ [n]).map (·.name))

namespace Spot

/-- A spot directly in a module other than the root that has no modules and, at the spot apart, no
imports. -/
structure IsBare (t : Spot) (path : ModulePath) : Prop where
  module : (t.program []).scopes.moduleOf? t.own = some path
  isInner : path ≠ .root
  noImports : Imports.ofItems (t.site.surroundings []) = []
  noChildren : ∀ s ∈ (t.program []).scopes.list, ∀ name, s.module? ≠ some (path.child name)

variable {t : Spot} {path : ModulePath} {xs : List Item} {crate n : Ident} {above : List Ident}
  {bound : Option Ident} {items : List Item} {p : Path} {exported : Ident → Prop}

/-- The program with the marker written as a path wherever it is written out at the spot. -/
def respelled (t : Spot) (is : List Ident) (items : List Item) (p : Path) (xs : List Item) :
    Program :=
  t.program (items ++ xs.map (·.respell is p))

theorem IsBare.exists_declarations (h : t.IsBare path) : ∃ (as bs : List Scope)
    (before after : List Candidate) (place : Place), as.length = t.own ∧
      (∀ is name, Scopes.childOf? ⟨as ++ ⟨some path, is⟩ :: bs⟩ as.length name = none) ∧
      ∀ xs : List Item, (∀ x ∈ xs, x.scopeCount = 0) →
        (t.program xs).scopes = ⟨as ++ ⟨some path, .ofItems xs⟩ :: bs⟩ ∧
        (t.program xs).declarations.candidates = before ++
          (xs.flatMap fun x => (Declarations.ofItem t.options place t.own t.first x).candidates) ++
          after := by
  obtain ⟨as, bs, module?, before, after, place, hown, hdeclarations⟩ := t.exists_declarations_flat
  obtain ⟨is, js, himports⟩ := Imports.exists_ofItems_surroundings t.site
  have hnil : is ++ [] ++ js = [] := (himports []).symm.trans h.noImports
  obtain ⟨rfl, rfl⟩ : is = [] ∧ js = [] := by simpa using hnil
  have hscopes := (hdeclarations [] (fun _ hx => absurd hx List.not_mem_nil)).1
  obtain rfl : module? = some path := by
    have hmodule := h.module
    rw [hscopes, ← hown, Scopes.moduleOf?, Scopes.get?_length] at hmodule
    exact hmodule
  refine ⟨as, bs, before, after, place, hown, fun is name => ?_, fun xs hxs => ?_⟩
  · rw [Scopes.childOf?, Scopes.moduleOf?, Scopes.get?_length]
    show Scopes.idOf? _ _ = none
    rw [Scopes.idOf?_eq as bs (some path) is (.ofItems (t.site.surroundings [])) (path.child name),
      ← hscopes]
    refine List.findIdx?_eq_none_iff.mpr fun s hs => ?_
    simpa using h.noChildren s hs name
  · have hxs := hdeclarations xs hxs
    rw [himports xs, List.nil_append, List.append_nil] at hxs
    exact hxs

/-- The spelling resolves to the marker where the spot is. -/
theorem IsBare.mem_resolve (h : t.IsBare path)
    (hspelling : Wording crate above n ((t.program xs).Exports crate above n) bound items p)
    (hplain : ∀ i ∈ crate :: above ++ [n], i.IsPlainName) (hflat : ∀ x ∈ xs, x.IsFlat) :
    (crate :: above ++ [n]).map (·.name) ∈
      (t.respelled (crate :: above ++ [n]) items p xs).scopes.resolve t.own p := by
  obtain ⟨as, bs, before, after, place, hown, hchild, hdeclarations⟩ := h.exists_declarations
  obtain ⟨hscopes, -⟩ := hdeclarations xs fun x hx => (hflat x hx).1
  obtain ⟨hscopes', -⟩ := hdeclarations (items ++ xs.map (·.respell (crate :: above ++ [n]) p))
    (hspelling.scopeCount_eq_zero hflat)
  have hitems : Imports.ofItems (items ++ xs.map (·.respell (crate :: above ++ [n]) p)) =
      .ofItems items := Imports.ofItems_append_respell items hflat _ p
  have hbeside : Scopes.BesideImports t.own (t.program xs).scopes
      (t.respelled (crate :: above ++ [n]) items p xs).scopes := by
    rw [respelled, hscopes, hscopes', ← hown]
    exact Scopes.besideImports as bs (some path) _ _
  rw [hitems] at hscopes'
  have hget : (t.respelled (crate :: above ++ [n]) items p xs).scopes.get? t.own =
      some ⟨some path, .ofItems items⟩ := by
    rw [respelled, hscopes', ← hown, Scopes.get?_length]
  refine Scopes.mem_resolve_of_spelling hspelling hplain hget (fun name => ?_) ?_
  · rw [respelled, hscopes', ← hown]
    exact hchild _ name
  · rintro w ⟨-, root, hroot, htarget⟩
    -- The crate root is not the module of the spot, so it has the imports that it had.
    have hne : root ≠ t.own := by
      rintro rfl
      obtain ⟨-, hmodule⟩ := Scopes.moduleOf?_of_idOf? hroot
      rw [hscopes, ← hown, Scopes.moduleOf?, Scopes.get?_length] at hmodule
      exact h.isInner (Option.some.inj hmodule)
    exact ⟨root, (hbeside.idOf? .root).symm.trans hroot,
      (hbeside.targetOf? root hne w.name).symm.trans htarget⟩

/-- The candidates of the program come to the same when the marker is respelled, those apart that
ask for the name which is imported. -/
theorem IsBare.forall₂_akin (h : t.IsBare path)
    (hspelling : Wording crate above n ((t.program xs).Exports crate above n) bound items p)
    (hplain : ∀ i ∈ crate :: above ++ [n], i.IsPlainName) (hcfg : n.name ≠ "cfg")
    (hflat : ∀ x ∈ xs, x.IsFlat) :
    let q := t.program xs
    let q' := t.respelled (crate :: above ++ [n]) items p xs
    List.Forall₂ (fun c c' => (∀ b, bound = some b → ¬ c.Asks q.scopes t.own b.name) →
        c.Akin q.scopes q'.scopes (.ofIdents (crate :: above ++ [n])) c')
      q.declarations.candidates q'.declarations.candidates := by
  intro q q'
  have hp := h.mem_resolve hspelling hplain hflat
  have hm : (Marker.ofIdents (crate :: above ++ [n])).segments =
      (crate :: above ++ [n]).map (·.name) := Marker.segments_ofIdents hplain
  obtain ⟨as, bs, before, after, place, hown, hchild, hdeclarations⟩ := h.exists_declarations
  obtain ⟨hscopes, hcandidates⟩ := hdeclarations xs fun x hx => (hflat x hx).1
  obtain ⟨hscopes', hcandidates'⟩ := hdeclarations
    (items ++ xs.map (·.respell (crate :: above ++ [n]) p)) (hspelling.scopeCount_eq_zero hflat)
  rw [Imports.ofItems_eq_nil hflat] at hscopes
  rw [Imports.ofItems_append_respell items hflat] at hscopes'
  -- Attributes that do not ask for the name are the marker as before.
  have hothers (c : Candidate) (hasks : ∀ b, bound = some b → ¬ c.Asks q.scopes t.own b.name) :
      ∀ a ∈ c.enum.attrs, (Marker.ofIdents (crate :: above ++ [n])).segments ∈
          q.scopes.resolve c.scope a.name ↔
        (Marker.ofIdents (crate :: above ++ [n])).segments ∈ q'.scopes.resolve c.scope a.name := by
    intro a ha
    have hasks : a.name.leading = false → ∀ b, bound = some b →
        ¬ q.scopes.Asks (c.scope, a.name.names) t.own b.name :=
      fun hleading b hb hname => hasks b hb ⟨a, ha, hleading, hname⟩
    have hq : q.scopes = ⟨as ++ ⟨some path, []⟩ :: bs⟩ := hscopes
    have hq' : q'.scopes = ⟨as ++ ⟨some path, .ofItems items⟩ :: bs⟩ := hscopes'
    rw [hq, ← hown] at hasks
    rw [hm, hq, hq']
    exact Scopes.mem_resolve_iff_of_brings (hspelling.brings hplain) (hchild []) hasks
  have hspot : (items ++ xs.map (·.respell (crate :: above ++ [n]) p)).flatMap
        (fun x => (Declarations.ofItem t.options place t.own t.first x).candidates) =
      (xs.flatMap fun x => (Declarations.ofItem t.options place t.own t.first x).candidates).map
        (·.respell (crate :: above ++ [n]) p) := by
    rw [List.flatMap_append, hspelling.candidates_eq_nil, List.nil_append, List.flatMap_map,
      List.map_flatMap]
    exact List.flatMap_congr fun x hx =>
      Declarations.candidates_ofItem_respell (hspelling.not_isWord_cfg hcfg) (hflat x hx).1
  show List.Forall₂ _ (t.program xs).declarations.candidates (t.program _).declarations.candidates
  rw [hcandidates, hcandidates', hspot]
  refine List.rel_append (List.rel_append ?_ ?_) ?_
  · exact List.forall₂_same.mpr fun c _ hasks => Candidate.akin_self (hothers c hasks)
  · refine List.forall₂_map_right_iff.mpr (List.forall₂_same.mpr fun c hc hasks => ?_)
    obtain ⟨x, hx, hc⟩ := List.mem_flatMap.mp hc
    have hscope : c.scope = t.own := by
      obtain hs | ⟨j, hj, -⟩ := Declarations.scope_of_mem_ofItem hc
      · exact hs
      · rw [(hflat x hx).1] at hj
        cases hj
    refine Candidate.akin_respell hm ?_ (hothers c hasks)
    rw [hm, hscope]
    exact hp
  · exact List.forall₂_same.mpr fun c _ hasks => Candidate.akin_self (hothers c hasks)

/-- An enum with attributes at the spot is a candidate, in the scope that the spot is in. -/
theorem exists_candidate_of_mem (t : Spot) (hflat : ∀ x ∈ xs, x.scopeCount = 0) {e : Enum}
    (he : .enum e ∈ xs) (hattrs : e.attrs ≠ []) :
    ∃ c ∈ (t.program xs).declarations.candidates, c.enum = e ∧ c.scope = t.own := by
  obtain ⟨as, bs, module?, before, after, place, -, hdeclarations⟩ := t.exists_declarations_flat
  obtain ⟨-, hcandidates⟩ := hdeclarations xs hflat
  have hcandidate : Declarations.isCandidate e = true := by
    simpa [Declarations.isCandidate] using hattrs
  refine ⟨⟨place.file, place.module?, t.own, e, place.exports e.vis,
    place.enabled.and (t.options.enabled e.attrs)⟩, ?_, rfl, rfl⟩
  rw [hcandidates]
  refine List.mem_append_left _ (List.mem_append_right _ (List.mem_flatMap.mpr ⟨.enum e, he, ?_⟩))
  show _ ∈ (Declarations.ofEnum t.options place t.own e).candidates
  rw [Declarations.ofEnum, if_pos hcandidate]
  exact List.mem_singleton_self _

/-! ## 4. The search for the crate -/

theorem mem_paths_program (t : Spot) {xs : List Item} {x : Item} (hx : x ∈ xs) {w : List Ident}
    (hw : w ∈ x.paths) : w ∈ (t.program xs).paths := by
  refine List.mem_flatMap.mpr ⟨t.unit.withItems (t.site.fill xs), ?_, ?_⟩
  · exact List.mem_append_right _ List.mem_cons_self
  · exact Item.pathsAll_subset_fill t.site xs (Item.mem_pathsAll_of_mem hw hx)

/-- A `use` declaration of a file that is not at the spot stays when other items come there. -/
theorem mem_items_program {t : Spot} {xs : List Item} {f : SourceUnit}
    (hf : f ∈ (t.program xs).files) {u : Use} (hu : .use u ∈ f.source.items) (hne : .use u ∉ xs) (ys : List Item) :
    ∃ f ∈ (t.program ys).files, .use u ∈ f.source.items := by
  rcases List.mem_append.mp hf with hf | hf
  · exact ⟨f, List.mem_append_left _ hf, hu⟩
  rcases List.mem_cons.mp hf with rfl | hf
  · refine ⟨t.unit.withItems (t.site.fill ys), List.mem_append_right _ List.mem_cons_self, ?_⟩
    replace hu : .use u ∈ t.site.fill xs := hu
    show .use u ∈ t.site.fill ys
    generalize t.site = s at hu ⊢
    cases s with
    | here before after =>
      simp only [Site.fill, List.mem_append] at hu ⊢
      tauto
    | within before head inner after =>
      simp only [Site.fill, List.mem_append, List.mem_cons] at hu ⊢
      rcases hu with hu | hu | hu
      · exact .inl hu
      · cases hu
      · exact .inr (.inr hu)
  · exact ⟨f, List.mem_append_right _ (List.mem_cons_of_mem _ hf), hu⟩

/-- The program mentions the crate of the marker by its path, however it is spelled. -/
theorem mentions_respelled (t : Spot)
    (hspelling : Wording crate above n ((t.program xs).Exports crate above n) bound items p)
    (hplain : ∀ i ∈ crate :: above ++ [n], i.IsPlainName) (hflat : ∀ x ∈ xs, x.IsFlat) {e : Enum}
    (he : .enum e ∈ xs) {a : Attribute} (ha : a ∈ e.attrs)
    (hwritten : a.isWrittenOut (crate :: above ++ [n]) = true) :
    (t.respelled (crate :: above ++ [n]) items p xs).mentions crate.text = true := by
  have hitem {x : Item} (hx : x ∈ items) {w : List Ident} (hw : w ∈ x.paths)
      (hhead : w.head? = some crate) :
      (t.respelled (crate :: above ++ [n]) items p xs).mentions crate.text = true :=
    Program.mentions_of_mem_paths (t.mem_paths_program (List.mem_append_left _ hx) hw) hhead
  have hattribute (hhead : p.idents.head? = some crate) :
      (t.respelled (crate :: above ++ [n]) items p xs).mentions crate.text = true := by
    have hrespelled : .enum (e.respell (crate :: above ++ [n]) p) ∈
        items ++ xs.map (·.respell (crate :: above ++ [n]) p) :=
      List.mem_append_right _ (List.mem_map.mpr ⟨.enum e, he, rfl⟩)
    refine Program.mentions_of_mem_paths (t.mem_paths_program hrespelled ?_) hhead
    rw [Item.paths]
    refine List.mem_map.mpr ⟨a.withName p, List.mem_map.mpr ⟨a, ha, ?_⟩, ?_⟩
    · rw [Attribute.respell, if_pos hwritten]
    · rw [Attribute.name_withName]
  have hroot {w : Ident} (hw : w.IsPlainName) (hexported : (t.program xs).Exports crate above n w) :
      (t.respelled (crate :: above ++ [n]) items p xs).mentions crate.text = true := by
    obtain ⟨⟨f, hf, u, hu, htree⟩, -⟩ := hexported
    have hne : .use u ∉ xs := by
      intro hmem
      have hitems := Imports.ofItems_use_rename (hplain n (by simp)) hw htree
      rw [Imports.ofItems, List.flatMap_singleton, (hflat _ hmem).2] at hitems
      cases hitems
    obtain ⟨f, hf, hu⟩ := mem_items_program hf hu hne
      (items ++ xs.map (·.respell (crate :: above ++ [n]) p))
    refine Program.mentions_of_mem_paths (w := crate :: above ++ [n])
      (List.mem_flatMap.mpr ⟨f, hf, Item.mem_pathsAll_of_mem ?_ hu⟩) rfl
    rw [Item.paths, htree.paths_eq, UseTree.paths]
    exact List.mem_singleton_self _
  -- The crate is named by the attribute, by a declaration that is put in, or at the crate root.
  cases hspelling with
  | absolute => exact hattribute (by simp)
  | relative => exact hattribute (by simp)
  | name hu =>
    refine hitem (List.mem_singleton_self _) (w := crate :: above ++ [n]) ?_ rfl
    rw [Item.paths, hu.paths_eq, UseTree.paths]
    exact List.mem_singleton_self _
  | rename _ _ hu =>
    refine hitem (List.mem_singleton_self _) (w := crate :: above ++ [n]) ?_ rfl
    rw [Item.paths, hu.paths_eq, UseTree.paths]
    exact List.mem_singleton_self _
  | renamedModule _ hlast hu =>
    refine hitem (List.mem_singleton_self _) (w := crate :: above) ?_ rfl
    rw [Item.paths, hu.paths_eq, UseTree.paths, hlast]
    exact List.mem_singleton_self _
  | glob hu =>
    refine hitem (List.mem_singleton_self _) (w := crate :: above ++ []) ?_ rfl
    rw [Item.paths, hu.paths_eq, UseTree.paths]
    exact List.mem_singleton_self _
  | @externCrate x _ _ hident _ =>
    refine hitem (List.mem_singleton_self _) (w := [x.ident]) ?_ (congrArg some hident)
    rw [Item.paths]
    exact List.mem_singleton_self _
  | reexport hw _ hexported _ => exact hroot hw hexported
  | throughRoot hw hexported => exact hroot hw hexported

/-! ## 5. Recognition by identity -/

/-- A program has at a spot directly in the crate root a `use` declaration that exports the marker
under a name which the root does not bind otherwise. -/
structure ExportsAt (root : Spot) (crate : Ident) (above : List Ident) (n w : Ident) (u : Use)
    (p : Program) : Prop where
  program : root.program [.use u] = p
  top : root.site.heads = []
  isRoot : (root.program []).scopes.idOf? .root = some root.own
  free : (root.program []).scopes.targetOf? root.own w.name = none
  name : w.IsPlainName
  tree : UseTree.IsBranch (.rename n w) (crate :: above) u.tree

namespace ExportsAt

variable {root : Spot} {w : Ident} {u : Use} {q : Program}

theorem imports_eq (h : root.ExportsAt crate above n w u q) (hn : n.IsPlainName) :
    (Item.use u).imports = [.binding w.name ((crate :: above ++ [n]).map (·.name))] := by
  have hitems := Imports.ofItems_use_rename hn h.name h.tree
  rw [Imports.ofItems, List.flatMap_singleton] at hitems
  rw [hitems]
  simp

theorem exports (h : root.ExportsAt crate above n w u q) (hn : n.IsPlainName) :
    q.Exports crate above n w := by
  have hu := h.imports_eq hn
  obtain ⟨is, js, hbeside, hwithout, hwith, -, -⟩ := root.exists_scopes_import (x := .use u)
    (by simp [hu])
  have hfree := h.free
  rw [hwithout] at hfree
  refine ⟨⟨root.unit.withItems (root.site.fill [.use u]), ?_, u, ?_, h.tree⟩, root.own, ?_, ?_⟩
  · rw [← h.program]
    exact List.mem_append_right _ List.mem_cons_self
  · show Item.use u ∈ root.site.fill [.use u]
    rw [← Site.surroundings_of_heads_eq_nil h.top]
    have htop := h.top
    generalize root.site = s at htop
    cases s with
    | here before after => simp [Site.surroundings]
    | within before head inner after => cases htop
  · rw [← h.program, ← hbeside.idOf? .root]
    exact h.isRoot
  · -- No other import binds the name, so this one does.
    rw [← h.program, hwith, hu]
    simp only [Imports.target?, List.filterMap_append, List.append_nil, List.getLast?_append,
      List.getLast?_eq_none_iff, Option.or_eq_none_iff] at hfree ⊢
    rw [hfree.1, hfree.2]
    simp [Imports.targetIn]

/-- What the crate root exports changes nothing if it is not asked for. -/
theorem descriptors_eq (h : root.ExportsAt crate above n w u q) (hn : n.IsPlainName)
    (hunasked : (root.program []).Unasked root.own w.name) {c : Candidate}
    (hc : c ∈ q.declarations.candidates) {a : Attribute} (ha : a ∈ c.enum.attrs)
    (hhead : a.name.idents.head? = some crate) {m : Marker} (hm : m.crateName = crate.text)
    (crateName : String) (stop : Cancellation) :
    (q.extract m crateName stop).descriptors =
      ((root.program []).extract m crateName stop).descriptors := by
  have hu := h.imports_eq hn
  have hbefore : c ∈ (root.program []).declarations.candidates := by
    rw [← h.program, root.candidates_program_import (by simp [hu])] at hc
    exact hc
  have hmentions : (root.program []).mentions crate.text = true :=
    Program.mentions_of_mem_paths (Program.idents_mem_paths hbefore ha) hhead
  have hmentions' : q.mentions crate.text = true :=
    Program.mentions_of_mem_paths (Program.idents_mem_paths hc ha) hhead
  rw [Program.descriptors_extract_eq_ite, Program.descriptors_extract_eq_ite, hm,
    if_pos hmentions, if_pos hmentions', ← h.program]
  exact root.extractAnyway_eq_of_unasked hu hunasked m crateName stop

end ExportsAt

/-- Where the name is imported from another crate, it is never the marker. -/
theorem IsBare.isMarker_eq_false (h : t.IsBare path) (hflat : ∀ x ∈ xs, x.IsFlat)
    (hn : n.IsPlainName) {u : Use} {other : Ident} {beyond : List Ident}
    (hother : other.IsPlainName) (hu : UseTree.IsBranch (.name n) (other :: beyond) u.tree)
    {m : Marker} (hm : m.crateName ≠ other.name) {c : Candidate} (hscope : c.scope = t.own)
    {a : Attribute} (hname : a.name = .ofIdents false [n]) :
    c.isMarker (t.program (.use u :: xs)).scopes m a = false := by
  obtain ⟨as, bs, before, after, place, hown, -, hdeclarations⟩ := h.exists_declarations
  obtain ⟨hscopes, -⟩ := hdeclarations (.use u :: xs) fun x hx => by
    rcases List.mem_cons.mp hx with rfl | hx
    · rfl
    · exact (hflat x hx).1
  have hitems : Imports.ofItems (.use u :: xs) =
      [.binding n.name ((other :: beyond).map (·.name) ++ [n.name])] := by
    rw [← Imports.ofItems_use hn hu]
    show Item.imports _ ++ Imports.ofItems xs = Item.imports _ ++ []
    rw [Imports.ofItems_eq_nil hflat]
  have htarget : (t.program (.use u :: xs)).scopes.targetOf? t.own n.name =
      some ((other :: beyond).map (·.name) ++ [n.name]) := by
    rw [hscopes, ← hown, Scopes.targetOf?, Scopes.get?_length, hitems]
    simp [Imports.target?, Imports.targetIn]
  -- So the name leads to the other crate and nowhere else.
  rw [← Bool.not_eq_true, Candidate.isMarker_iff, hscope, hname, Scopes.resolve_ofIdents_false]
  show ¬ _ ∈ Scopes.resolveWithin _ (16 + 1) _ [n.name]
  rw [Scopes.resolveWithin_binding (hn.isRelative_eq_false []) htarget, List.append_nil,
    if_neg (by simp [hother.isRelative_eq_false]), List.mem_singleton]
  intro heq
  rw [Marker.crateName, heq] at hm
  exact hm rfl

/-- **Recognition by identity.** In a module other than the crate root, without modules and without
other imports, every way to write a marker is recognised. Each enum comes to the descriptor that it
has where the marker is written as an absolute path, unless another of its attributes asks the
module for the name that is imported; so if none does, the descriptors of the program are the same.
A name that the crate root exports for the marker changes nothing by itself if it is not asked for.
The marker's name imported from another crate is never taken for it. -/
theorem descriptors_eq_of_spelling (t : Spot) (path : ModulePath) (xs : List Item) (crate n : Ident)
    (above : List Ident) (crateName : String) (stop : Cancellation) (hbare : t.IsBare path)
    (hflat : ∀ x ∈ xs, x.IsFlat) (hplain : ∀ i ∈ crate :: above ++ [n], i.IsPlainName)
    (hcfg : n.name ≠ "cfg")
    (hwritten : ∃ e, .enum e ∈ xs ∧ ∃ a ∈ e.attrs, a.isWrittenOut (crate :: above ++ [n]) = true) :
    let m := Marker.ofIdents (crate :: above ++ [n])
    let q := t.program xs
    (∀ bound items p, Wording crate above n (q.Exports crate above n) bound items p →
      let q' := t.respelled (crate :: above ++ [n]) items p xs
      (∀ c ∈ q'.declarations.candidates, c.scope = t.own → ∀ a ∈ c.enum.attrs, a.name = p →
        c.isMarker q'.scopes m a = true) ∧
      List.Forall₂ (fun c c' => (∀ b, bound = some b → ¬ c.Asks q.scopes t.own b.name) →
          c.describe q.scopes m crateName = c'.describe q'.scopes m crateName)
        q.declarations.candidates q'.declarations.candidates ∧
      ((∀ b, bound = some b → q.Unasked t.own b.name) →
        (q'.extract m crateName stop).descriptors = (q.extract m crateName stop).descriptors)) ∧
    (∀ root w u, ExportsAt root crate above n w u q → q.Exports crate above n w ∧
      ((root.program []).Unasked root.own w.name →
        (q.extract m crateName stop).descriptors =
          ((root.program []).extract m crateName stop).descriptors)) ∧
    ∀ (u : Use) (other : Ident) (beyond : List Ident), other.IsPlainName →
      other.name ≠ crate.name → UseTree.IsBranch (.name n) (other :: beyond) u.tree →
      ∀ c ∈ (t.program (.use u :: xs)).declarations.candidates, c.scope = t.own →
        ∀ a ∈ c.enum.attrs, a.name = .ofIdents false [n] →
          c.isMarker (t.program (.use u :: xs)).scopes m a = false := by
  intro m q
  have hn : n.IsPlainName := hplain n (by simp)
  have hm : m.segments = (crate :: above ++ [n]).map (·.name) := Marker.segments_ofIdents hplain
  obtain ⟨e, he, a, ha, hout⟩ := hwritten
  have hidents : a.name.idents = crate :: above ++ [n] :=
    beq_iff_eq.mp (Bool.and_eq_true_iff.mp hout).2
  have hhead : a.name.idents.head? = some crate := by rw [hidents]; rfl
  -- The attribute that is written out is why all these programs mention the crate.
  obtain ⟨c, hc, hce, -⟩ := t.exists_candidate_of_mem (fun x hx => (hflat x hx).1) he
    (List.ne_nil_of_mem ha)
  subst hce
  refine ⟨fun bound items p hspelling => ⟨?_, ?_, fun hunasked => ?_⟩, fun root w u hexports =>
    ⟨hexports.exports hn, fun hunasked => ?_⟩, ?_⟩
  · rintro c - hscope a - rfl
    rw [Candidate.isMarker_iff, hm, hscope]
    exact hbare.mem_resolve hspelling hplain hflat
  · exact (hbare.forall₂_akin hspelling hplain hcfg hflat).imp
      fun c c' hakin hasks => (hakin hasks).describe_eq crateName
  · have hmentions : q.mentions crate.text = true :=
      Program.mentions_of_mem_paths (Program.idents_mem_paths hc ha) hhead
    have hmentions' := t.mentions_respelled hspelling hplain hflat he ha hout
    have hcrate : m.crateName = crate.text := rfl
    rw [Program.descriptors_extract_eq_ite, Program.descriptors_extract_eq_ite, hcrate,
      if_pos hmentions, if_pos hmentions']
    refine (Program.extractAnyway_congr ?_ stop).symm
    -- The candidates are alike one by one, since none of them asks for the imported name.
    have hakin := hbare.forall₂_akin hspelling hplain hcfg hflat
    obtain ⟨hlength, hakin⟩ := List.forall₂_iff_zip.mp hakin
    refine List.forall₂_iff_zip.mpr ⟨hlength, fun {c c'} hmem => hakin hmem fun b hb => ?_⟩
    exact hunasked b hb c (List.of_mem_zip hmem).1
  · exact hexports.descriptors_eq hn hunasked hc ha hhead rfl crateName stop
  · intro u other beyond hother hne hu c _ hscope a _ hname
    refine hbare.isMarker_eq_false hflat hn hother hu ?_ hscope hname
    have hcrate : crate.IsPlainName := hplain crate (by simp)
    show crate.text ≠ other.name
    rw [hcrate.text_eq]
    exact hne.symm

/-- A module in the crate root, after other items. -/
def inModule (before : List Item) : Spot :=
  ⟨.none, [], ⟨⟨"src/lib.rs"⟩, some .root, true, ⟨[], []⟩⟩,
    .within before ⟨[], .everyone, false, .plain "m"⟩ (.here [] []) [], []⟩

/-- An enum with a marker that is written out. -/
def markedEnum : Enum :=
  ⟨[⟨false, .path (.ofIdents true [.plain "a", .plain "b"])⟩], .everyone, .plain "C", .empty,
    .empty, [⟨[], .plain "D", .unit, none⟩], false⟩

/-- By another name that is imported in braces, and by a name that the crate root exports. -/
theorem descriptors_eq_inModule :
    let is : List Ident := [.plain "a", .plain "b"]
    let u : Use := ⟨[], .inherited, false,
      .group [.path (.plain "a") (.group [.rename (.plain "b") (.plain "x")] true)] false⟩
    let v : Use := ⟨[], .everyone, false,
      .path (.plain "a") (.rename (.plain "b") (.plain "w"))⟩
    let q := (inModule []).respelled is [.use u] (.ofIdents false [.plain "x"]) [.enum markedEnum]
    let r := (inModule [.use v]).respelled is [] (.ofIdents false [.plain "crate", .plain "w"])
      [.enum markedEnum]
    (inModule []).IsBare ⟨["m"]⟩ ∧ (inModule [.use v]).IsBare ⟨["m"]⟩ ∧
      markedEnum.attrs.any (·.isWrittenOut is) = true ∧
      (q.extract ⟨["a", "b"]⟩ "crate" .never).descriptors = [⟨"crate::m::C", none⟩] ∧
      (r.extract ⟨["a", "b"]⟩ "crate" .never).descriptors = [⟨"crate::m::C", none⟩] := by
  intro is u v q r
  have hbare (before : List Item) (imports : Imports) (hown : (inModule before).own = 1)
      (hscopes : ((inModule before).program []).scopes =
        ⟨[⟨some .root, imports⟩, ⟨some ⟨["m"]⟩, []⟩]⟩) :
      (inModule before).IsBare ⟨["m"]⟩ := by
    refine ⟨?_, by decide, rfl, fun s hs name => ?_⟩
    · rw [hscopes, hown]
      rfl
    · rw [hscopes] at hs
      rcases List.mem_cons.mp hs with rfl | hs
      · simp [ModulePath.root, ModulePath.child]
      · rw [List.mem_singleton.mp hs]
        simp [ModulePath.child]
  have hplain : ∀ i ∈ is, i.IsPlainName := by decide
  have hflat : ∀ x ∈ [Item.enum markedEnum], x.IsFlat := by
    intro x hx
    rw [List.mem_singleton.mp hx]
    exact ⟨rfl, rfl⟩
  have hwritten : ∃ e, .enum e ∈ [Item.enum markedEnum] ∧ ∃ a ∈ e.attrs, a.isWrittenOut is = true :=
    ⟨markedEnum, List.mem_singleton_self _, _, List.mem_singleton_self _, by decide⟩
  have hleft : (inModule []).IsBare ⟨["m"]⟩ := hbare [] [] rfl rfl
  have hright : (inModule [.use v]).IsBare ⟨["m"]⟩ := hbare [.use v] _ rfl rfl
  obtain ⟨hrename, -, -⟩ := descriptors_eq_of_spelling (inModule []) ⟨["m"]⟩ [.enum markedEnum]
    (.plain "a") (.plain "b") [] "crate" .never hleft hflat hplain (by decide) hwritten
  obtain ⟨hroot, hexport, -⟩ := descriptors_eq_of_spelling (inModule [.use v]) ⟨["m"]⟩
    [.enum markedEnum] (.plain "a") (.plain "b") [] "crate" .never hright hflat hplain (by decide)
    hwritten
  -- The new name stands nowhere else, so no attribute asks for it.
  have hfresh : ((inModule []).program [.enum markedEnum]).Unasked (inModule []).own "x" :=
    Program.unasked_of_fresh rfl (by decide +kernel) _
  have hexported : ((inModule [.use v]).program [.enum markedEnum]).Exports (.plain "a") []
      (.plain "b") (.plain "w") := by
    refine (hexport ⟨.none, [], ⟨⟨"src/lib.rs"⟩, some .root, true, ⟨[], []⟩⟩,
      .here [] [.inlineModule ⟨[], .everyone, false, .plain "m"⟩ [.enum markedEnum]], []⟩
      (.plain "w") v ⟨rfl, rfl, rfl, rfl, by decide, ?_⟩).1
    exact .path _ .leaf
  refine ⟨hleft, hright, by decide, ?_, ?_⟩
  · refine ((hrename (some (.plain "x")) _ _ (.rename (by decide) (by decide)
      (.group _ (.path _ (.group _ .leaf))))).2.2 ?_).trans ?_
    · rintro b hb
      rw [← Option.some.inj hb]
      exact hfresh
    · decide +kernel
  · refine ((hroot none _ _ (.throughRoot (by decide) hexported)).2.2 (by simp)).trans ?_
    decide +kernel

end Spot

end EnumCatalog
