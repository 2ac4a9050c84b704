import EnumCatalog.Proofs.Site

/-!
# Paths as they are written

Resolution works on names: raw marks are dropped, and a tree of imports is taken apart into single
ones. Here it is told where those names are written. Each branch of a tree is a path (`UseTree.paths`),
what an import leads to is one of these up to a `self` at its end (`exists_path_of_mem_imports`), and
every import of every scope of a program comes from such a path (`exists_isWrittenIn_ofUnits`).

Each path starts with a name that the program mentions (`Item.mem_mentions_of_mem_pathsAll`).
-/

set_option autoImplicit false

namespace EnumCatalog

open Syntax (Item UseTree Path)
open Scopes (isRelative)

/-! ## 1. Paths as they are written -/

/-- The path that an import leads to. -/
def Import.path : Import → List String
  | .binding _ target => target
  | .glob source => source

/-- Every name of the path that may be that of a crate is written in another. -/
def Import.IsWrittenIn (i : Import) (w : List Ident) : Prop :=
  ∀ x ∈ i.path, isRelative [x] = false → x ∈ w.map (·.name)

namespace Syntax

/-- The names of a path as they are written. -/
def Path.idents (p : Path) : List Ident := p.segments.map (·.ident)

@[simp]
theorem Path.map_name_idents (p : Path) : p.idents.map (·.name) = p.names := List.map_map

namespace UseTree

mutual

/-- The paths of a tree, one for each branch. -/
def paths : UseTree → List (List Ident)
  | .path i rest => (paths rest).map (i :: ·)
  | .name i => [[i]]
  | .rename i _ => [[i]]
  | .glob => [[]]
  | .group ts _ => pathsAll ts

def pathsAll : List UseTree → List (List Ident)
  | [] => []
  | t :: ts => paths t ++ pathsAll ts

end

mutual

/-- What an import leads to is the path of a branch, up to a `self` at its end. -/
theorem exists_path_of_mem_imports {i : Import} : ∀ (t : UseTree) (above : List String),
    i ∈ t.imports above → ∃ w ∈ t.paths, i.path <+: above ++ w.map (·.name)
  | .path j rest, above, h => by
    rw [imports] at h
    obtain ⟨w, hw, hprefix⟩ := exists_path_of_mem_imports rest _ h
    refine ⟨j :: w, ?_, by simpa using hprefix⟩
    rw [paths]
    exact List.mem_map_of_mem hw
  | .name j, above, h => by
    refine ⟨[j], by simp [paths], ?_⟩
    rw [imports] at h
    -- A `self` leads to what is above it, any other name one step further.
    split at h
    · split at h
      · rw [List.mem_singleton.mp h]
        exact List.prefix_append above _
      · cases h
    · rw [List.mem_singleton.mp h]
      exact List.prefix_refl _
  | .rename j r, above, h => by
    refine ⟨[j], by simp [paths], ?_⟩
    rw [imports, Import.bindingOf] at h
    split at h
    · cases h
    · rw [List.mem_singleton.mp h]
      show (if j.name == "self" then above else above ++ [j.name]) <+: above ++ [j.name]
      split
      · exact List.prefix_append above _
      · exact List.prefix_refl _
  | .glob, above, h => by
    refine ⟨[], by simp [paths], ?_⟩
    rw [imports] at h
    rw [List.mem_singleton.mp h]
    exact List.prefix_append above _
  | .group ts trailing, above, h => by
    rw [imports] at h
    rw [paths]
    exact exists_path_of_mem_importsAll ts above h

theorem exists_path_of_mem_importsAll {i : Import} : ∀ (ts : List UseTree) (above : List String),
    i ∈ importsAll above ts → ∃ w ∈ pathsAll ts, i.path <+: above ++ w.map (·.name)
  | [], _, h => by cases h
  | t :: ts, above, h => by
    rw [importsAll, List.mem_append] at h
    rw [pathsAll]
    rcases h with h | h
    · obtain ⟨w, hw, hprefix⟩ := exists_path_of_mem_imports t above h
      exact ⟨w, List.mem_append_left _ hw, hprefix⟩
    · obtain ⟨w, hw, hprefix⟩ := exists_path_of_mem_importsAll ts above h
      exact ⟨w, List.mem_append_right _ hw, hprefix⟩

end

mutual

/-- A tree is searched where its branches start. -/
theorem mem_heads_of_mem_paths {w : List Ident} {i : Ident} : ∀ t : UseTree, w ∈ t.paths →
    w.head? = some i → i.text ∈ t.heads
  | .path j rest, hw, hi => by
    rw [paths] at hw
    obtain ⟨w, -, rfl⟩ := List.mem_map.mp hw
    rw [← Option.some.inj hi]
    simp [heads]
  | .name j, hw, hi => by
    rw [paths] at hw
    rw [List.mem_singleton.mp hw] at hi
    rw [← Option.some.inj hi]
    simp [heads]
  | .rename j r, hw, hi => by
    rw [paths] at hw
    rw [List.mem_singleton.mp hw] at hi
    rw [← Option.some.inj hi]
    simp [heads]
  | .glob, hw, hi => by
    rw [paths] at hw
    rw [List.mem_singleton.mp hw] at hi
    cases hi
  | .group ts trailing, hw, hi => by
    rw [paths] at hw
    rw [heads]
    exact mem_headsAll_of_mem_pathsAll ts hw hi

theorem mem_headsAll_of_mem_pathsAll {w : List Ident} {i : Ident} : ∀ ts : List UseTree,
    w ∈ pathsAll ts → w.head? = some i → i.text ∈ headsAll ts
  | [], hw, _ => by cases hw
  | t :: ts, hw, hi => by
    rw [pathsAll, List.mem_append] at hw
    rw [headsAll]
    rcases hw with hw | hw
    · exact List.mem_append_left _ (mem_heads_of_mem_paths t hw hi)
    · exact List.mem_append_right _ (mem_headsAll_of_mem_pathsAll ts hw hi)

end

end UseTree

namespace Item

mutual

/-- The paths of an item that resolution starts from or goes through: those of the attributes of
enums, and those that are imported. -/
def paths : Item → List (List Ident)
  | .enum e => e.attrs.map (·.name.idents)
  | .inlineModule _ items => pathsAll items
  | .use u => u.tree.paths
  | .externCrate x => [[x.ident]]
  | _ => []

def pathsAll : List Item → List (List Ident)
  | [] => []
  | i :: rest => paths i ++ pathsAll rest

end

theorem pathsAll_append (xs ys : List Item) : pathsAll (xs ++ ys) = pathsAll xs ++ pathsAll ys := by
  induction xs with
  | nil => simp [pathsAll]
  | cons i xs ih => simp [pathsAll, ih]

/-- The paths at a site are among those of the items around it. -/
theorem pathsAll_subset_fill (s : Site) (xs : List Item) : pathsAll xs ⊆ pathsAll (s.fill xs) := by
  induction s with
  | here before after =>
    intro w hw
    simp only [Site.fill, pathsAll_append, List.mem_append]
    exact .inl (.inr hw)
  | within before h s after ih =>
    intro w hw
    simp only [Site.fill, pathsAll_append, pathsAll, paths, List.mem_append]
    exact .inr (.inl (ih hw))

theorem paths_subset_fill (s : Site) (i : Item) : i.paths ⊆ pathsAll (s.fill [i]) := by
  intro w hw
  refine pathsAll_subset_fill s [i] ?_
  rw [pathsAll, List.mem_append]
  exact .inl hw

theorem mem_pathsAll_of_mem {x : Item} {w : List Ident} (hw : w ∈ x.paths) {xs : List Item}
    (hx : x ∈ xs) : w ∈ pathsAll xs := by
  induction xs with
  | nil => cases hx
  | cons y ys ih =>
    rw [pathsAll, List.mem_append]
    rcases List.mem_cons.mp hx with rfl | hx
    · exact .inl hw
    · exact .inr (ih hx)

theorem mem_mentions_attribute {a : Attribute} {i : Ident} (h : a.name.idents.head? = some i) :
    i.text ∈ a.fragment.mentions := by
  have hhead : a.name.head? = some i.text := by
    rw [Path.idents, List.head?_map] at h
    rw [Path.head?]
    obtain ⟨s, hs, rfl⟩ := Option.map_eq_some_iff.mp h
    rw [hs, Option.map_some]
  have hpath : i.text ∈ a.name.fragment.mentions := by
    show i.text ∈ a.name.head?.toList ++ _ ++ _
    rw [hhead]
    simp
  show i.text ∈ _ ++ a.content.fragment.mentions
  refine List.mem_append_right _ ?_
  unfold Attribute.name at hpath
  cases hcontent : a.content with
  | path p =>
    rw [hcontent] at hpath
    exact hpath
  | list p d arguments =>
    rw [hcontent] at hpath
    exact List.mem_append_left _ hpath
  | value p v =>
    rw [hcontent] at hpath
    exact List.mem_append_left _ (List.mem_append_left _ hpath)

mutual

/-- The search sees where the paths of an item start. -/
theorem mem_mentions_of_mem_paths {w : List Ident} {i : Ident} : ∀ x : Item, w ∈ x.paths →
    w.head? = some i → i.text ∈ x.fragment.mentions
  | .enum e, hw, hi => by
    rw [paths] at hw
    obtain ⟨a, ha, rfl⟩ := List.mem_map.mp hw
    have hattrs : i.text ∈ (Fragment.concat (e.attrs.map Attribute.fragment)).mentions :=
      List.mem_flatMap.mpr ⟨a.fragment, List.mem_map_of_mem ha, mem_mentions_attribute hi⟩
    rw [fragment, Enum.fragment]
    simp only [Fragment.mentions_append, List.mem_append]
    tauto
  | .inlineModule h items, hw, hi => by
    rw [paths] at hw
    rw [fragment]
    have hitems := mem_mentions_of_mem_pathsAll items hw hi
    exact List.mem_append_right _ (List.mem_append_right _ hitems)
  | .use u, hw, hi => by
    rw [paths] at hw
    exact UseTree.mem_heads_of_mem_paths u.tree hw hi
  | .externCrate x, hw, hi => by
    rw [paths] at hw
    rw [List.mem_singleton.mp hw] at hi
    rw [← Option.some.inj hi]
    exact List.mem_singleton.mpr rfl
  | .fileModule _, hw, _ => absurd hw (by simp [paths])
  | .other _, hw, _ => absurd hw (by simp [paths])

theorem mem_mentions_of_mem_pathsAll {w : List Ident} {i : Ident} : ∀ xs : List Item,
    w ∈ pathsAll xs → w.head? = some i → i.text ∈ (fragmentAll xs).mentions
  | [], hw, _ => by
    rw [pathsAll] at hw
    cases hw
  | x :: xs, hw, hi => by
    rw [pathsAll, List.mem_append] at hw
    rw [fragmentAll]
    rcases hw with hw | hw
    · exact List.mem_append_left _ (mem_mentions_of_mem_paths x hw hi)
    · exact List.mem_append_right _ (mem_mentions_of_mem_pathsAll xs hw hi)

end

end Item

/-! ## 2. Imports of items -/

/-- Every import of an item is written in one of its paths. -/
theorem Item.exists_isWrittenIn {x : Item} {i : Import} (h : i ∈ x.imports) :
    ∃ w ∈ x.paths, i.IsWrittenIn w := by
  cases x with
  | use u =>
    obtain ⟨w, hw, hprefix⟩ := UseTree.exists_path_of_mem_imports u.tree [] h
    exact ⟨w, hw, fun x hx _ => hprefix.subset hx⟩
  | externCrate x =>
    refine ⟨[x.ident], by simp [Item.paths], ?_⟩
    rw [Item.imports, ExternCrate.imports, Import.bindingOf] at h
    split at h
    · cases h
    · rw [List.mem_singleton.mp h]
      -- The word for this crate is not written, but it leads nowhere else.
      intro y hy hrelative
      obtain rfl := List.mem_singleton.mp hy
      split at hrelative
      · cases hrelative
      · next hself => simp [hself]
  | _ => cases h

theorem Item.exists_isWrittenIn_ofItems {xs : List Item} {i : Import} (h : i ∈ Imports.ofItems xs) :
    ∃ w ∈ Item.pathsAll xs, i.IsWrittenIn w := by
  induction xs with
  | nil => cases h
  | cons x xs ih =>
    rw [Imports.ofItems, List.flatMap_cons, List.mem_append] at h
    rw [Item.pathsAll]
    rcases h with h | h
    · obtain ⟨w, hw, hi⟩ := Item.exists_isWrittenIn h
      exact ⟨w, List.mem_append_left _ hw, hi⟩
    · obtain ⟨w, hw, hi⟩ := ih h
      exact ⟨w, List.mem_append_right _ hw, hi⟩

end Syntax

namespace Program

/-- The paths of a program as they are written. -/
def paths (p : Program) : List (List Ident) := p.files.flatMap fun u => Item.pathsAll u.source.items

end Program

namespace Declarations

mutual

theorem exists_isWrittenIn_ofItem {o : Cfg.Options} {p : Place} {scope next : ScopeId} {x : Item}
    {s : Scope} {i : Import} (hs : s ∈ (ofItem o p scope next x).scopes) (hi : i ∈ s.imports) :
    ∃ w ∈ x.paths, i.IsWrittenIn w := by
  cases x with
  | enum e =>
    rw [ofItem, scopes_ofEnum] at hs
    cases hs
  | inlineModule h items =>
    rw [scopes_ofItem_inlineModule] at hs
    rw [Item.paths]
    rcases List.mem_cons.mp hs with rfl | hs
    · exact Item.exists_isWrittenIn_ofItems hi
    · exact exists_isWrittenIn_ofItems hs hi
  | _ => cases hs

theorem exists_isWrittenIn_ofItems {o : Cfg.Options} {p : Place} {scope next : ScopeId}
    {xs : List Item} {s : Scope} {i : Import} (hs : s ∈ (ofItems o p scope next xs).scopes)
    (hi : i ∈ s.imports) : ∃ w ∈ Item.pathsAll xs, i.IsWrittenIn w := by
  cases xs with
  | nil => cases hs
  | cons x rest =>
    rw [ofItems_cons, scopes_append, List.mem_append] at hs
    rw [Item.pathsAll]
    rcases hs with hs | hs
    · obtain ⟨w, hw, hi⟩ := exists_isWrittenIn_ofItem hs hi
      exact ⟨w, List.mem_append_left _ hw, hi⟩
    · obtain ⟨w, hw, hi⟩ := exists_isWrittenIn_ofItems hs hi
      exact ⟨w, List.mem_append_right _ hw, hi⟩

end

theorem exists_isWrittenIn_ofUnits {o : Cfg.Options} {next : ScopeId} {us : List SourceUnit}
    {s : Scope} {i : Import} (hs : s ∈ (ofUnits o next us).scopes) (hi : i ∈ s.imports) :
    ∃ w ∈ us.flatMap fun u => Item.pathsAll u.source.items, i.IsWrittenIn w := by
  induction us generalizing next with
  | nil => cases hs
  | cons u us ih =>
    rw [ofUnits, scopes_append, List.mem_append] at hs
    rw [List.flatMap_cons]
    rcases hs with hs | hs
    · rw [ofUnit, scopes_append, List.singleton_append, List.mem_cons] at hs
      rcases hs with rfl | hs
      · obtain ⟨w, hw, hi⟩ := Item.exists_isWrittenIn_ofItems hi
        exact ⟨w, List.mem_append_left _ hw, hi⟩
      · obtain ⟨w, hw, hi⟩ := exists_isWrittenIn_ofItems hs hi
        exact ⟨w, List.mem_append_left _ hw, hi⟩
    · obtain ⟨w, hw, hi⟩ := ih hs
      exact ⟨w, List.mem_append_right _ hw, hi⟩

end Declarations

end EnumCatalog
