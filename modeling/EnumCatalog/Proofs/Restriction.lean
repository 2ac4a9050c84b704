import EnumCatalog.Proofs.NamePath
import EnumCatalog.Proofs.Site
import Mathlib.Data.List.Induction

/-!
# Restricted visibilities

A visibility restricts an item to a module: the one it stands in if nothing is written, and the one
that a path leads to if a path is written (`ModulePath.RestrictsTo`). Such a path starts with
`crate`, `self` or `super`, climbs by further `super` and goes down by names (`LeadsTo`), and where
it is legal it comes to a module around the item.

An item can be named from the crate root if it is not restricted or restricted to the root
(`Opens`). `nameableFromRoot` looks at paths of one word only, so it misses one kind of path that
leads to the root: several `super`, or `super` after `self` (`ClimbsOut`). With this exception it
says what the restriction says, and so does the flag of each candidate about the enum and the
modules in braces around it.
-/

set_option autoImplicit false

namespace EnumCatalog

open Syntax (Item Enum Visibility ModuleHead Path)

namespace ModulePath

variable {m dest : ModulePath} {names : List String} {vis : Visibility}

/-! ## 1. Where a path leads -/

/-- From a module, each `super` climbs to the module around, and the names behind go down again. -/
inductive Climbs : ModulePath → List String → ModulePath → Prop where
  | down {m : ModulePath} {names : List String} (hnames : ∀ n ∈ names, n ∉ Ident.pathWords) :
      Climbs m names ⟨m.names ++ names⟩
  | up {m parent dest : ModulePath} {names : List String} (hparent : m.parent? = some parent)
      (h : Climbs parent names dest) : Climbs m ("super" :: names) dest

/-- In a module, the names of a path lead to a module. -/
inductive LeadsTo (m : ModulePath) : List String → ModulePath → Prop where
  | crate {names : List String} (hnames : ∀ n ∈ names, n ∉ Ident.pathWords) :
      LeadsTo m ("crate" :: names) ⟨names⟩
  | self {names : List String} {dest : ModulePath} (h : Climbs m names dest) :
      LeadsTo m ("self" :: names) dest
  | super {names : List String} {dest : ModulePath} (h : Climbs m ("super" :: names) dest) :
      LeadsTo m ("super" :: names) dest

theorem names_of_parent? {parent : ModulePath} (h : m.parent? = some parent) :
    parent.names = m.names.dropLast ∧ m.names ≠ [] := by
  unfold parent? at h
  split at h
  · cases h
  · next hroot =>
    cases h
    simpa [isRoot] using hroot

theorem parent?_child (m : ModulePath) (name : String) : (m.child name).parent? = some m := by
  simp [parent?, isRoot, child]

theorem Climbs.unique {dest' : ModulePath} (h : Climbs m names dest) (h' : Climbs m names dest') :
    dest = dest' := by
  induction h with
  | down hnames =>
    cases h' with
    | down => rfl
    | up => simp [Ident.pathWords] at hnames
  | up hparent _ ih =>
    cases h' with
    | down hnames => simp [Ident.pathWords] at hnames
    | up hparent' h' =>
      rw [hparent] at hparent'
      cases hparent'
      exact ih h'

theorem LeadsTo.unique {dest' : ModulePath} (h : m.LeadsTo names dest)
    (h' : m.LeadsTo names dest') : dest = dest' := by
  generalize hsame : names = names' at h'
  -- Which word comes first decides how the path is read.
  cases h with
  | crate =>
    cases h' with
    | crate =>
      cases hsame
      rfl
    | self => simp at hsame
    | super => simp at hsame
  | self h =>
    cases h' with
    | crate => simp at hsame
    | self h' =>
      cases hsame
      exact h.unique h'
    | super => simp at hsame
  | super h =>
    cases h' with
    | crate => simp at hsame
    | self => simp at hsame
    | super h' =>
      cases hsame
      exact h.unique h'

/-- Only `super` as often as there are modules around comes to the crate root. -/
theorem climbs_root_iff :
    Climbs m names .root ↔ names = List.replicate m.names.length "super" := by
  constructor
  · intro h
    generalize hdest : root = dest at h
    induction h with
    | @down m names =>
      have hnil : m.names ++ names = [] := (congrArg ModulePath.names hdest).symm
      obtain ⟨hm, rfl⟩ := List.append_eq_nil_iff.mp hnil
      simp [hm]
    | @up m parent _ names hparent _ ih =>
      obtain ⟨hnames, hne⟩ := names_of_parent? hparent
      have hlength : m.names.length = parent.names.length + 1 := by
        have := List.length_pos_of_ne_nil hne
        rw [hnames, List.length_dropLast]
        omega
      rw [ih hdest, hlength, List.replicate_succ]
  · intro h
    obtain ⟨modules⟩ := m
    subst h
    -- The last module is the one that the first `super` leaves.
    induction modules using List.reverseRecOn with
    | nil => exact .down (by simp)
    | append_singleton modules name ih =>
      have hlength : (modules ++ [name]).length = modules.length + 1 := by simp
      show Climbs _ (List.replicate (modules ++ [name]).length "super") _
      rw [hlength, List.replicate_succ]
      exact .up (parent?_child ⟨modules⟩ name) ih

theorem leadsTo_root_iff :
    m.LeadsTo names .root ↔ names = ["crate"] ∨
      (m ≠ .root ∧ names = List.replicate m.names.length "super") ∨
      names = "self" :: List.replicate m.names.length "super" := by
  constructor
  · intro h
    generalize hdest : root = dest at h
    cases h with
    | @crate names =>
      have hnil : names = [] := (congrArg ModulePath.names hdest).symm
      exact .inl (by rw [hnil])
    | self h =>
      rw [← hdest, climbs_root_iff] at h
      exact .inr (.inr (by rw [h]))
    | super h =>
      rw [← hdest, climbs_root_iff] at h
      refine .inr (.inl ⟨?_, h⟩)
      intro hroot
      rw [hroot, ← hdest] at h
      simp [root] at h
  · intro h
    obtain rfl | ⟨hne, h⟩ | rfl := h
    · exact .crate (by simp)
    · obtain ⟨_ | ⟨first, rest⟩⟩ := m
      · exact absurd rfl hne
      · have hclimbs := climbs_root_iff.mpr h
        subst h
        exact .super hclimbs
    · exact .self (climbs_root_iff.mpr rfl)

/-- There is no module around the crate root. -/
theorem not_leadsTo_super_root : ¬ LeadsTo root ("super" :: names) dest := by
  intro h
  generalize hpath : "super" :: names = path at h
  cases h with
  | crate => simp at hpath
  | self => simp at hpath
  | super h =>
    cases h with
    | down hnames => simp [Ident.pathWords] at hnames
    | up hparent => cases hparent

/-! ## 2. What a visibility restricts to -/

/-- A visibility on an item of a module restricts the item to a module, which is that one or a
module around it. -/
inductive RestrictsTo (m : ModulePath) : Visibility → ModulePath → Prop where
  | inherited : RestrictsTo m .inherited m
  | within {isIn : Bool} {path : Path} {dest : ModulePath} (hleading : path.leading = false)
      (hplain : path.isPlain = true) (hleads : m.LeadsTo path.names dest)
      (haround : dest.names <+: m.names) : RestrictsTo m (.within isIn path) dest

theorem RestrictsTo.unique {dest' : ModulePath} (h : m.RestrictsTo vis dest)
    (h' : m.RestrictsTo vis dest') : dest = dest' := by
  cases h with
  | inherited =>
    cases h'
    rfl
  | within _ _ hleads =>
    cases h' with
    | within _ _ hleads' => exact hleads.unique hleads'

/-- A visibility is legal on the items of a module. -/
def Admits (m : ModulePath) (vis : Visibility) : Prop :=
  vis = .everyone ∨ ∃ dest, m.RestrictsTo vis dest

/-- A visibility leaves the items of a module open to the crate root. -/
def Opens (m : ModulePath) (vis : Visibility) : Prop := vis = .everyone ∨ m.RestrictsTo vis .root

/-- A visibility climbs from a module to the crate root by a path of several words. -/
def ClimbsOut (m : ModulePath) (vis : Visibility) : Prop :=
  ∃ isIn path, vis = .within isIn path ∧
    (2 ≤ m.names.length ∧ path.names = List.replicate m.names.length "super" ∨
      m ≠ .root ∧ path.names = "self" :: List.replicate m.names.length "super")

end ModulePath

/-- A path that is a word which cannot be raw has the word for its only name. -/
theorem Syntax.Path.isWord_iff {path : Path} {w : String} (hw : w ∈ neverRaw)
    (hleading : path.leading = false) (hplain : path.isPlain = true) :
    path.isWord w = true ↔ path.names = [w] := by
  obtain ⟨leading, segments⟩ := path
  cases hleading
  match segments, hplain with
  | [], _ => simp [isWord, ident?, names]
  | [⟨i, none⟩], _ =>
    have hraw : i.name = w → i.raw = false := by
      intro hname
      have hcan := i.canBeRaw
      rw [hname] at hcan
      simpa [hw] using hcan
    simpa [isWord, ident?, names, Ident.isWord] using hraw
  | [⟨_, some _⟩], hplain => simp [isPlain] at hplain
  | _ :: _ :: _, _ => simp [isWord, ident?, names]

namespace ModulePath

variable {m : ModulePath} {vis : Visibility}

/-- The rule by which a path counts as leading to the root, as a matter of its names. -/
theorem nameableFromRoot_within_iff {isIn : Bool} {path : Path} (hleading : path.leading = false)
    (hplain : path.isPlain = true) :
    m.nameableFromRoot (.within isIn path) = true ↔ path.names = ["crate"] ∨
      (path.names = ["self"] ∧ m = .root) ∨ (path.names = ["super"] ∧ m.names.length ≤ 1) := by
  have hcrate := path.isWord_iff (w := "crate") (by decide) hleading hplain
  have hself := path.isWord_iff (w := "self") (by decide) hleading hplain
  have hsuper := path.isWord_iff (w := "super") (by decide) hleading hplain
  have hroot : m.isRoot = true ↔ m = .root := by
    obtain ⟨names⟩ := m
    simp [isRoot, root]
  unfold nameableFromRoot
  simp only [hcrate, hself, hsuper]
  split
  · next h => simp [h]
  · next h =>
    split
    · next h' => simp [h', hroot]
    · next h' =>
      split
      · next h'' => simp [h'']
      · next h'' => simp [h, h', h'']

/-- On a legal visibility the rule is right, apart from paths of several words that lead to the
root. -/
theorem nameableFromRoot_iff_of_admits (h : m.Admits vis) :
    m.nameableFromRoot vis = true ↔ m.Opens vis ∧ ¬ m.ClimbsOut vis := by
  rcases h with rfl | ⟨dest, h⟩
  · simp [nameableFromRoot, Opens, ClimbsOut]
  cases h with
  | inherited =>
    have hopens : m.Opens .inherited ↔ m = .root := by
      refine ⟨fun h => ?_, fun h => .inr (h ▸ .inherited)⟩
      rcases h with h | h
      · cases h
      · exact RestrictsTo.unique .inherited h
    have hclimbs : ¬ m.ClimbsOut .inherited := by simp [ClimbsOut]
    obtain ⟨names⟩ := m
    simp [hopens, hclimbs, nameableFromRoot, isRoot, root]
  | @within isIn path dest hleading hplain hleads haround =>
    have hopens : m.Opens (.within isIn path) ↔ m.LeadsTo path.names .root := by
      refine ⟨fun h => ?_, fun h => .inr (.within hleading hplain h List.nil_prefix)⟩
      rcases h with h | h
      · cases h
      · cases h with
        | within _ _ h _ => exact h
    have hclimbs : m.ClimbsOut (.within isIn path) ↔
        2 ≤ m.names.length ∧ path.names = List.replicate m.names.length "super" ∨
          m ≠ .root ∧ path.names = "self" :: List.replicate m.names.length "super" := by
      simp [ClimbsOut]
    rw [nameableFromRoot_within_iff hleading hplain, hopens, hclimbs, leadsTo_root_iff]
    -- The number of modules around is the number of `super` that it takes.
    obtain ⟨_ | ⟨first, _ | ⟨second, rest⟩⟩⟩ := m
    · have hsuper : path.names ≠ ["super"] := by
        intro hnames
        rw [hnames] at hleads
        exact not_leadsTo_super_root hleads
      simp [root, hsuper]
    · have hcrate : path.names = ["crate"] → path.names ≠ ["self", "super"] := by simp +contextual
      have hsuper : path.names = ["super"] → path.names ≠ ["self", "super"] := by simp +contextual
      simp only [root, mk.injEq, List.cons_ne_self, and_false, List.length_cons, List.length_nil,
        Nat.zero_add, Std.le_refl, and_true, false_or, ne_eq, not_false_eq_true,
        List.replicate_one, true_and, Nat.reduceLeDiff, false_and]
      constructor
      · rintro (h | h)
        · exact ⟨.inl h, hcrate h⟩
        · exact ⟨.inr (.inl h), hsuper h⟩
      · rintro ⟨h | h | h, hnot⟩
        · exact .inl h
        · exact .inr h
        · exact absurd h hnot
    · have hcrate : path.names = ["crate"] →
          path.names ≠ List.replicate (first :: second :: rest).length "super" ∧
          path.names ≠ "self" :: List.replicate (first :: second :: rest).length "super" := by
        intro h
        simp [h, List.replicate_succ]
      simp only [root, mk.injEq, reduceCtorEq, and_false, List.length_cons, Nat.reduceLeDiff,
        or_self, or_false, ne_eq, not_false_eq_true, true_and, Nat.le_add_left, not_or]
      constructor
      · exact fun h => ⟨.inl h, hcrate h⟩
      · rintro ⟨h | h | h, hsupers, hself⟩
        · exact h
        · exact absurd h hsupers
        · exact absurd h hself

/-! ## 3. Along the modules in braces -/

/-- Something holds of what is written on each of several modules in braces, and last on an item,
each in the module that it is written in. -/
def Along (P : ModulePath → Visibility → Prop) (m : ModulePath) :
    List ModuleHead → Visibility → Prop
  | [], vis => P m vis
  | h :: hs, vis => P m h.vis ∧ (m.child h.ident.name).Along P hs vis

theorem allNameable_iff_along {hs : List ModuleHead} :
    m.AllNameable hs vis ↔ m.Along (fun m vis => m.nameableFromRoot vis = true) hs vis := by
  induction hs generalizing m with
  | nil => exact Iff.rfl
  | cons h hs ih => exact and_congr_right fun _ => ih

theorem Along.congr {A P Q : ModulePath → Visibility → Prop} {hs : List ModuleHead}
    (h : m.Along A hs vis) (hiff : ∀ m vis, A m vis → (P m vis ↔ Q m vis)) :
    m.Along P hs vis ↔ m.Along Q hs vis := by
  induction hs generalizing m with
  | nil => exact hiff m vis h
  | cons head hs ih => exact and_congr (hiff m head.vis h.1) (ih h.2)

end ModulePath

/-! ## 4. The flag of a candidate -/

namespace Syntax.Item

mutual

/-- The enums with attributes in an item, each with the heads of the modules in braces around it
from the outside in. -/
def enclosed : Item → List (List ModuleHead × Enum)
  | .enum e => if e.attrs.isEmpty then [] else [([], e)]
  | .inlineModule h items => (enclosedAll items).map fun x => (h :: x.1, x.2)
  | _ => []

/-- The enums with attributes in items, in their order. -/
def enclosedAll : List Item → List (List ModuleHead × Enum)
  | [] => []
  | i :: rest => i.enclosed ++ enclosedAll rest

end

end Syntax.Item

open Syntax.Item (enclosed enclosedAll)

/-- An enum with attributes where it stands in a program. -/
structure Occurrence where
  unit : SourceUnit
  /-- The modules in braces around it in its file, from the outside in. -/
  heads : List ModuleHead
  enum : Enum

namespace Occurrence

/-- Something holds of what is written on the enum and on each module in braces around it, each in
the module that it is written in. Without a module there is none to be named. -/
def Along (x : Occurrence) (P : ModulePath → Visibility → Prop) : Prop :=
  ∃ m, x.unit.module? = some m ∧ m.Along P x.heads x.enum.vis

/-- The visibilities on the enum and on the modules in braces around it are legal where they stand.
-/
def IsLegal (x : Occurrence) : Prop :=
  ∀ m, x.unit.module? = some m → m.Along ModulePath.Admits x.heads x.enum.vis

/-- A candidate is the enum that occurs there. -/
structure Yields (x : Occurrence) (c : Candidate) : Prop where
  file : c.file = x.unit.path
  enum : c.enum = x.enum
  module? : c.module? = x.unit.module?.map (·.descend x.heads)

end Occurrence

/-- The enums with attributes of a program, file by file. -/
def Program.occurrences (p : Program) : List Occurrence :=
  p.files.flatMap fun u => (enclosedAll u.source.items).map fun x => ⟨u, x.1, x.2⟩

namespace Declarations

/-- A candidate is an enum in a place, within modules in braces. -/
structure ComesFrom (o : Cfg.Options) (p : Place) (x : List ModuleHead × Enum) (c : Candidate) :
    Prop where
  file : c.file = p.file
  enum : c.enum = x.2
  module? : c.module? = (p.descend o x.1).module?
  visible : c.visible = (p.descend o x.1).exports x.2.vis

variable {o : Cfg.Options} {p : Place} {scope next : ScopeId}

mutual

theorem forall₂_ofItem (o : Cfg.Options) (p : Place) (scope next : ScopeId) (i : Item) :
    List.Forall₂ (ComesFrom o p) i.enclosed (ofItem o p scope next i).candidates := by
  cases i with
  | enum e =>
    unfold enclosed ofItem ofEnum isCandidate
    cases e.attrs.isEmpty with
    | true => exact .nil
    | false => exact .cons ⟨rfl, rfl, rfl, rfl⟩ .nil
  | inlineModule h items =>
    rw [enclosed, candidates_ofItem_inlineModule, List.forall₂_map_left_iff]
    exact (forall₂_ofItems o (p.within o h) next (next + 1) items).imp fun x c hc =>
      ⟨hc.file, hc.enum, hc.module?, hc.visible⟩
  | _ => exact .nil

theorem forall₂_ofItems (o : Cfg.Options) (p : Place) (scope next : ScopeId) (xs : List Item) :
    List.Forall₂ (ComesFrom o p) (enclosedAll xs) (ofItems o p scope next xs).candidates := by
  cases xs with
  | nil => exact .nil
  | cons i rest =>
    rw [enclosedAll, ofItems_cons, candidates_append]
    exact List.rel_append (forall₂_ofItem o p scope next i)
      (forall₂_ofItems o p scope (next + i.scopeCount) rest)

end

/-- The candidates of files are the enums with attributes that occur in them, in the same order. A
flag tells whether the enum and the modules around it can be named where they stand. -/
theorem forall₂_ofUnits (o : Cfg.Options) (next : ScopeId) (us : List SourceUnit) :
    List.Forall₂ (fun x c => x.Yields c ∧ (c.visible = true ↔ x.unit.exported = true ∧
        x.Along fun m vis => m.nameableFromRoot vis = true))
      (Program.occurrences ⟨us, o⟩) (ofUnits o next us).candidates := by
  induction us generalizing next with
  | nil => exact .nil
  | cons u us ih =>
    refine List.rel_append ?_ (ih _)
    rw [List.forall₂_map_left_iff]
    refine (forall₂_ofItems o (.ofUnit u) next (next + 1) u.source.items).imp fun x c hc => ?_
    refine ⟨⟨hc.file, hc.enum, ?_⟩, ?_⟩
    · rw [hc.module?, Place.module?_descend]
      rfl
    · rw [hc.visible, Place.exports_descend_iff]
      simp only [ModulePath.allNameable_iff_along]
      exact Iff.rfl

end Declarations

/-- **Nameable from the crate root.** On every legal visibility the rule says whether it leaves the
items of the module open to the crate root, except where it climbs there by a path of several words.
The candidates of a program are the enums with attributes in its files; where the visibilities are
legal, the flag of each says whether its file is exported and the enum and every module in braces
around it are open to the crate root in this sense, each in the module that it is written in. -/
theorem Program.visible_iff_opens (p : Program) :
    (∀ (m : ModulePath) (vis : Visibility), m.Admits vis →
      (m.nameableFromRoot vis = true ↔ m.Opens vis ∧ ¬ m.ClimbsOut vis)) ∧
    List.Forall₂ (fun x c => x.Yields c ∧ (x.IsLegal →
        (c.visible = true ↔ x.unit.exported = true ∧
          x.Along fun m vis => m.Opens vis ∧ ¬ m.ClimbsOut vis)))
      p.occurrences p.declarations.candidates := by
  refine ⟨fun m vis h => ModulePath.nameableFromRoot_iff_of_admits h, ?_⟩
  refine (Declarations.forall₂_ofUnits p.options 0 p.files).imp fun x c ⟨hyields, hvisible⟩ => ?_
  refine ⟨hyields, fun hlegal => ?_⟩
  rw [hvisible]
  refine and_congr_right fun _ => ?_
  refine exists_congr fun m => and_congr_right fun hm => ?_
  exact (hlegal m hm).congr fun _ _ => ModulePath.nameableFromRoot_iff_of_admits

/-! ## 5. Two modules below the root -/

namespace Occurrence

/-- An enum in the root file `mod m { pub mod n { #[t] enum E {} } }` of a crate, with `pub(in ..)`
and a path of these names written on it. -/
def belowTwo (names : List Ident) : Occurrence where
  unit := ⟨⟨"src/lib.rs"⟩, some .root, true,
    ⟨[], [.inlineModule outer [.inlineModule inner [.enum (declared names)]]]⟩⟩
  heads := [outer, inner]
  enum := declared names
where
  outer : ModuleHead := ⟨[], .inherited, false, .plain "m"⟩
  inner : ModuleHead := ⟨[], .everyone, false, .plain "n"⟩
  declared (names : List Ident) : Enum :=
    ⟨[⟨false, .path (.ofIdent (.plain "t"))⟩], .within true ⟨false, names.map (⟨·, none⟩)⟩,
      .plain "E", .empty, .empty, [], false⟩

variable {names : List Ident} {dest : ModulePath}

theorem along_belowTwo_iff {P : ModulePath → Visibility → Prop} :
    (belowTwo names).Along P ↔ P .root .inherited ∧ P ⟨["m"]⟩ .everyone ∧
      P ⟨["m", "n"]⟩ (belowTwo names).enum.vis := by
  simp only [Along, belowTwo, Option.some.injEq, exists_eq_left']
  exact Iff.rfl

theorem restrictsTo_belowTwo
    (hleads : (ModulePath.mk ["m", "n"]).LeadsTo (names.map (·.name)) .root) :
    (ModulePath.mk ["m", "n"]).RestrictsTo (belowTwo names).enum.vis .root := by
  refine .within rfl ?_ ?_ List.nil_prefix
  · simp [Syntax.Path.isPlain]
  · simpa [Syntax.Path.names, Function.comp_def] using hleads

theorem isLegal_belowTwo
    (hleads : (ModulePath.mk ["m", "n"]).LeadsTo (names.map (·.name)) .root) :
    (belowTwo names).IsLegal := by
  intro m hm
  cases hm
  exact ⟨.inr ⟨_, .inherited⟩, .inl rfl, .inr ⟨_, restrictsTo_belowTwo hleads⟩⟩

theorem opens_belowTwo
    (hleads : (ModulePath.mk ["m", "n"]).LeadsTo (names.map (·.name)) .root) :
    (belowTwo names).Along ModulePath.Opens :=
  along_belowTwo_iff.mpr ⟨.inr .inherited, .inl rfl, .inr (restrictsTo_belowTwo hleads)⟩

end Occurrence

namespace Program

open Occurrence (belowTwo)

theorem visible_iff_opens_crate :
    let x := belowTwo [.plain "crate"]
    let p : Program := ⟨[x.unit], .none⟩
    let m : ModulePath := ⟨["m", "n"]⟩
    m.Admits x.enum.vis ∧ m.nameableFromRoot x.enum.vis = true ∧
      ∃ c, p.declarations.candidates = [c] ∧ x.Yields c ∧ x.IsLegal ∧ c.visible = true := by
  intro x p m
  have hleads : m.LeadsTo ["crate"] .root := .crate (by simp)
  have hrestricts : m.RestrictsTo x.enum.vis .root := Occurrence.restrictsTo_belowTwo hleads
  have hadmits : m.Admits x.enum.vis := .inr ⟨_, hrestricts⟩
  have hclimbs : ¬ m.ClimbsOut x.enum.vis := by
    rintro ⟨isIn, path, h, hnames⟩
    cases h
    rcases hnames with ⟨-, hnames⟩ | ⟨-, hnames⟩
    · exact absurd hnames (by decide)
    · exact absurd hnames (by decide)
  obtain ⟨hrule, hpair⟩ := visible_iff_opens p
  rw [show p.occurrences = [x] from rfl] at hpair
  obtain ⟨c, _, ⟨hyields, hvisible⟩, hnil, hcandidates⟩ := List.forall₂_cons_left_iff.mp hpair
  rw [List.forall₂_nil_left_iff.mp hnil] at hcandidates
  have hlegal : x.IsLegal := Occurrence.isLegal_belowTwo hleads
  refine ⟨hadmits, (hrule m _ hadmits).mpr ⟨.inr hrestricts, hclimbs⟩, c, hcandidates,
    hyields, hlegal, (hvisible hlegal).mpr ⟨rfl, Occurrence.along_belowTwo_iff.mpr ?_⟩⟩
  exact ⟨⟨.inr .inherited, by simp [ModulePath.ClimbsOut]⟩,
    ⟨.inl rfl, by simp [ModulePath.ClimbsOut]⟩, .inr hrestricts, hclimbs⟩

/-- Two `super` lead from the module to the root, but are not taken to do so. -/
theorem not_visible_superSuper :
    let x := belowTwo [.plain "super", .plain "super"]
    let p : Program := ⟨[x.unit], .none⟩
    x.IsLegal ∧ x.unit.exported = true ∧ x.Along ModulePath.Opens ∧
      ∃ c, p.declarations.candidates = [c] ∧ x.Yields c ∧ c.visible = false := by
  have hleads : (ModulePath.mk ["m", "n"]).LeadsTo ["super", "super"] .root :=
    ModulePath.leadsTo_root_iff.mpr (.inr (.inl ⟨by decide, rfl⟩))
  refine ⟨Occurrence.isLegal_belowTwo hleads, rfl, Occurrence.opens_belowTwo hleads, ?_⟩
  exact ⟨_, rfl, ⟨rfl, rfl, rfl⟩, rfl⟩

end Program

end EnumCatalog
