import EnumCatalog.Proofs.Resolution

/-!
# Nested imports and single ones

A nested `use` declaration stands for single ones: what is in front of a group goes in front of each
tree of the group, at any depth (`UseTree.singles`). Written out in that way, a list of items has the
same imports (`Imports.ofItems_singles`), and what each of them does can be said without a walk over
a tree, as it is names in a row and a leaf (`Item.Binds`, `Item.globSource?`).

In the table of a module the last declaration that binds a name decides what the name stands for.
-/

set_option autoImplicit false

namespace EnumCatalog

namespace Syntax

/-! ## 1. Trees without groups -/

namespace UseTree

mutual

/-- The trees without groups that a tree stands for, in source order. -/
def singles : UseTree → List UseTree
  | .path i rest => rest.singles.map (.path i)
  | .name i => [.name i]
  | .rename i r => [.rename i r]
  | .glob => [.glob]
  | .group ts _ => singlesAll ts

@[inherit_doc singles]
def singlesAll : List UseTree → List UseTree
  | [] => []
  | t :: ts => t.singles ++ singlesAll ts

end

/-- Whether a tree is the end of a declaration. -/
def isLeaf : UseTree → Bool
  | .name _ => true
  | .rename _ _ => true
  | .glob => true
  | _ => false

/-- A tree with names in front. -/
def along (front : List Ident) (t : UseTree) : UseTree := front.foldr .path t

/-- A tree is a leaf with names in front. -/
def IsSingle (t : UseTree) : Prop := ∃ front leaf, leaf.isLeaf = true ∧ t = along front leaf

theorem isSingle_of_isLeaf {t : UseTree} (h : t.isLeaf = true) : t.IsSingle := ⟨[], t, h, rfl⟩

theorem IsSingle.path {t : UseTree} (h : t.IsSingle) (i : Ident) : (UseTree.path i t).IsSingle := by
  obtain ⟨front, leaf, hleaf, rfl⟩ := h
  exact ⟨i :: front, leaf, hleaf, rfl⟩

mutual

theorem isSingle_of_mem_singles : ∀ (t : UseTree), ∀ s ∈ t.singles, s.IsSingle
  | .path i rest, s, hs => by
    rw [singles] at hs
    obtain ⟨s', hs', rfl⟩ := List.mem_map.mp hs
    exact (isSingle_of_mem_singles rest s' hs').path i
  | .name i, s, hs => by
    rw [singles, List.mem_singleton] at hs
    exact hs ▸ isSingle_of_isLeaf rfl
  | .rename i r, s, hs => by
    rw [singles, List.mem_singleton] at hs
    exact hs ▸ isSingle_of_isLeaf rfl
  | .glob, s, hs => by
    rw [singles, List.mem_singleton] at hs
    exact hs ▸ isSingle_of_isLeaf rfl
  | .group ts _, s, hs => by
    rw [singles] at hs
    exact isSingle_of_mem_singlesAll ts s hs

theorem isSingle_of_mem_singlesAll : ∀ (ts : List UseTree), ∀ s ∈ singlesAll ts, s.IsSingle
  | [], _, hs => by
    rw [singlesAll] at hs
    cases hs
  | t :: ts, s, hs => by
    rw [singlesAll] at hs
    rcases List.mem_append.mp hs with hs | hs
    · exact isSingle_of_mem_singles t s hs
    · exact isSingle_of_mem_singlesAll ts s hs

end

mutual

theorem imports_singles : ∀ (t : UseTree) (above : List String),
    t.singles.flatMap (imports above) = t.imports above
  | .path i rest, above => by
    rw [singles, imports, List.flatMap_map, ← imports_singles rest]
    simp only [imports]
  | .name i, above => by rw [singles, List.flatMap_singleton]
  | .rename i r, above => by rw [singles, List.flatMap_singleton]
  | .glob, above => by rw [singles, List.flatMap_singleton]
  | .group ts _, above => by
    rw [singles, imports]
    exact importsAll_singles ts above

/-- A tree has the imports of the trees that it stands for. -/
theorem importsAll_singles : ∀ (ts : List UseTree) (above : List String),
    (singlesAll ts).flatMap (imports above) = importsAll above ts
  | [], above => by rw [singlesAll, importsAll, List.flatMap_nil]
  | t :: ts, above => by
    rw [singlesAll, importsAll, List.flatMap_append, imports_singles t, importsAll_singles ts]

end

theorem imports_along (front : List Ident) (t : UseTree) (above : List String) :
    (along front t).imports above = t.imports (above ++ front.map (·.name)) := by
  induction front generalizing above with
  | nil => rw [List.map_nil, List.append_nil]; rfl
  | cons i front ih =>
    show (UseTree.path i (along front t)).imports above = _
    rw [imports, ih, List.map_cons, List.append_assoc]
    rfl

/-- The path in front of an asterisk. -/
def globSource? : UseTree → Option (List String)
  | .path i rest => rest.globSource?.map (i.name :: ·)
  | .glob => some []
  | _ => none

theorem globSource?_along (front : List Ident) (t : UseTree) :
    (along front t).globSource? = t.globSource?.map (front.map (·.name) ++ ·) := by
  induction front with
  | nil => simp [along]
  | cons i front ih =>
    show (UseTree.path i (along front t)).globSource? = _
    rw [globSource?, ih, Option.map_map]
    rfl

end UseTree

/-! ## 2. Single declarations -/

namespace Item

open UseTree (along)

/-- The declarations without groups that an item stands for. -/
def singles : Item → List Item
  | .use u => u.tree.singles.map fun t => .use { u with tree := t }
  | i => [i]

/-- A single declaration binds a name to a path. -/
inductive Binds : Item → String → List String → Prop
  | name {u : Use} {front : List Ident} {i : Ident} (htree : u.tree = along front (.name i))
    (hself : i.name ≠ "self") : Binds (.use u) i.name (front.map (·.name) ++ [i.name])
  /-- The word `self` stands for the path in front of it. -/
  | nameSelf {u : Use} {front : List Ident} {last i : Ident}
    (htree : u.tree = along (front ++ [last]) (.name i)) (hself : i.name = "self") :
    Binds (.use u) last.name ((front ++ [last]).map (·.name))
  | rename {u : Use} {front : List Ident} {i r : Ident} (htree : u.tree = along front (.rename i r))
    (hname : r.name ≠ "_") (hself : i.name ≠ "self") :
    Binds (.use u) r.name (front.map (·.name) ++ [i.name])
  | renameSelf {u : Use} {front : List Ident} {i r : Ident}
    (htree : u.tree = along front (.rename i r)) (hname : r.name ≠ "_") (hself : i.name = "self") :
    Binds (.use u) r.name (front.map (·.name))
  | crate {x : ExternCrate} (hname : (x.rename.getD x.ident).name ≠ "_")
    (hself : x.ident.name ≠ "self") :
    Binds (.externCrate x) (x.rename.getD x.ident).name [x.ident.name]
  /-- The crate itself. -/
  | crateSelf {x : ExternCrate} (hname : (x.rename.getD x.ident).name ≠ "_")
    (hself : x.ident.name = "self") :
    Binds (.externCrate x) (x.rename.getD x.ident).name ["crate"]

/-- The path from which a single declaration takes everything. -/
def globSource? : Item → Option (List String)
  | .use u => u.tree.globSource?
  | _ => none

/-- An item is no declaration with groups. -/
def IsSingle : Item → Prop
  | .use u => u.tree.IsSingle
  | _ => True

theorem singles_of_not_use {i : Item} (h : ∀ u, i ≠ .use u) : i.singles = [i] := by
  cases i with
  | use u => exact absurd rfl (h u)
  | _ => rfl

theorem isSingle_of_not_use {i : Item} (h : ∀ u, i ≠ .use u) : i.IsSingle := by
  cases i with
  | use u => exact absurd rfl (h u)
  | _ => trivial

theorem isSingle_of_mem_singles {i x : Item} (hx : x ∈ i.singles) : x.IsSingle := by
  by_cases h : ∃ u, i = .use u
  · obtain ⟨u, rfl⟩ := h
    obtain ⟨t, ht, rfl⟩ := List.mem_map.mp hx
    exact u.tree.isSingle_of_mem_singles t ht
  · rw [not_exists] at h
    rw [singles_of_not_use h, List.mem_singleton] at hx
    exact hx ▸ isSingle_of_not_use h

theorem imports_singles (i : Item) : i.singles.flatMap Item.imports = i.imports := by
  by_cases h : ∃ u, i = .use u
  · obtain ⟨u, rfl⟩ := h
    rw [singles, List.flatMap_map]
    exact u.tree.imports_singles []
  · rw [not_exists] at h
    rw [singles_of_not_use h, List.flatMap_singleton]

/-- A single declaration is one import at most. -/
theorem IsSingle.length_imports {i : Item} (h : i.IsSingle) : i.imports.length ≤ 1 := by
  cases i with
  | use u =>
    obtain ⟨front, leaf, hleaf, htree⟩ := h
    rw [Item.imports, htree, UseTree.imports_along, List.nil_append]
    cases leaf with
    | name i =>
      rw [UseTree.imports]
      split
      · cases (front.map (·.name)).getLast? <;> simp
      · simp
    | rename i r =>
      rw [UseTree.imports, Import.bindingOf]
      split <;> simp
    | glob => simp [UseTree.imports]
    | path i rest => cases hleaf
    | group ts trailing => cases hleaf
  | externCrate x =>
    rw [Item.imports, ExternCrate.imports, Import.bindingOf]
    split <;> simp
  | _ => simp [Item.imports]

theorem Binds.mem_imports {i : Item} {name : String} {target : List String}
    (h : i.Binds name target) : .binding name target ∈ i.imports := by
  cases h with
  | name htree hself => simp [Item.imports, htree, UseTree.imports_along, UseTree.imports, hself]
  | nameSelf htree hself =>
    simp [Item.imports, htree, UseTree.imports_along, UseTree.imports, hself]
  | rename htree hname hself =>
    simp [Item.imports, htree, UseTree.imports_along, UseTree.imports, Import.bindingOf, hname, hself]
  | renameSelf htree hname hself =>
    simp [Item.imports, htree, UseTree.imports_along, UseTree.imports, Import.bindingOf, hname, hself]
  | crate hname hself => simp [Item.imports, ExternCrate.imports, Import.bindingOf, hname, hself]
  | crateSelf hname hself => simp [Item.imports, ExternCrate.imports, Import.bindingOf, hname, hself]

theorem mem_bindingOf {x : Import} {name : String} {target : List String}
    (h : x ∈ Import.bindingOf name target) : name ≠ "_" ∧ x = .binding name target := by
  unfold Import.bindingOf at h
  split at h
  · cases h
  · next hname => exact ⟨by simpa using hname, List.mem_singleton.mp h⟩

/-- The import that a single declaration is binds what it is said to bind. -/
theorem IsSingle.binds {i : Item} (h : i.IsSingle) {name : String} {target : List String}
    (hmem : .binding name target ∈ i.imports) : i.Binds name target := by
  cases i with
  | use u =>
    obtain ⟨front, leaf, hleaf, htree⟩ := h
    rw [Item.imports, htree, UseTree.imports_along, List.nil_append] at hmem
    -- Only names and renamings bind. A `self` in their place stands for the path above it.
    cases leaf with
    | name i =>
      rw [UseTree.imports] at hmem
      by_cases hself : i.name = "self"
      · rcases List.eq_nil_or_concat front with rfl | ⟨front, last, rfl⟩
        · simp [hself] at hmem
        · obtain ⟨rfl, rfl⟩ : name = last.name ∧ target = (front ++ [last]).map (·.name) := by
            simpa [hself] using hmem
          exact .nameSelf (by simpa using htree) hself
      · obtain ⟨rfl, rfl⟩ : name = i.name ∧ target = front.map (·.name) ++ [i.name] := by
          simpa [hself] using hmem
        exact .name htree hself
    | rename i r =>
      rw [UseTree.imports] at hmem
      obtain ⟨hname, heq⟩ := mem_bindingOf hmem
      obtain ⟨rfl, rfl⟩ := Import.binding.inj heq
      by_cases hself : i.name = "self"
      · simpa [hself] using Binds.renameSelf htree hname hself
      · simpa [hself] using Binds.rename htree hname hself
    | glob => simp [UseTree.imports] at hmem
    | path i rest => cases hleaf
    | group ts trailing => cases hleaf
  | externCrate x =>
    rw [Item.imports, ExternCrate.imports] at hmem
    obtain ⟨hname, heq⟩ := mem_bindingOf hmem
    obtain ⟨rfl, rfl⟩ := Import.binding.inj heq
    by_cases hself : x.ident.name = "self"
    · simpa [hself] using Binds.crateSelf hname hself
    · simpa [hself] using Binds.crate hname hself
  | _ => cases hmem

theorem IsSingle.globs_imports {i : Item} (h : i.IsSingle) :
    Imports.globs i.imports = i.globSource?.toList := by
  cases i with
  | use u =>
    obtain ⟨front, leaf, hleaf, htree⟩ := h
    rw [Item.imports, globSource?, htree, UseTree.imports_along, UseTree.globSource?_along,
      List.nil_append]
    cases leaf with
    | name i =>
      rw [UseTree.imports]
      split
      · cases (front.map (·.name)).getLast? <;> rfl
      · rfl
    | rename i r =>
      rw [UseTree.imports, Import.bindingOf]
      split <;> rfl
    | glob => simp [UseTree.imports, UseTree.globSource?, Imports.globs, Imports.globSource]
    | path i rest => cases hleaf
    | group ts trailing => cases hleaf
  | externCrate x =>
    rw [Item.imports, ExternCrate.imports, Import.bindingOf]
    split <;> rfl
  | _ => rfl

end Item

end Syntax

/-! ## 3. The table -/

namespace Imports

open Syntax (Item)

theorem targetIn_eq_some_iff {x : Import} {name : String} {target : List String} :
    targetIn name x = some target ↔ x = .binding name target := by
  cases x with
  | binding n t =>
    by_cases hn : n = name
    · simp [targetIn, hn]
    · simp [targetIn, hn]
  | glob source => simp [targetIn]

/-- The names that a single declaration binds, looked up. -/
theorem filterMap_imports {x : Item} (hx : x.IsSingle) (name : String) :
    x.imports.filterMap (targetIn name) = (target? x.imports name).toList := by
  have hlength := hx.length_imports
  unfold target?
  cases himports : x.imports with
  | nil => rfl
  | cons i rest =>
    rw [himports, List.length_cons] at hlength
    obtain rfl : rest = [] := List.eq_nil_of_length_eq_zero (by omega)
    rw [List.filterMap_cons]
    cases targetIn name i <;> simp

theorem target?_imports_iff {x : Item} (hx : x.IsSingle) {name : String} {target : List String} :
    target? x.imports name = some target ↔ x.Binds name target := by
  have hmem : target? x.imports name = some target ↔ .binding name target ∈ x.imports := by
    rw [← Option.mem_toList, ← filterMap_imports hx, List.mem_filterMap]
    simp only [targetIn_eq_some_iff, exists_eq_right]
  rw [hmem]
  exact ⟨hx.binds, fun h => h.mem_imports⟩

variable {items : List Item}

/-- Among single declarations the last that binds a name decides. -/
theorem target?_ofItems_iff (h : ∀ x ∈ items, x.IsSingle) {name : String} {target : List String} :
    (ofItems items).target? name = some target ↔
      ∃ before x after, items = before ++ x :: after ∧ x.Binds name target ∧
        ∀ y ∈ after, ∀ t, ¬ y.Binds name t := by
  -- A single declaration brings at most one binding, so the search can go item by item.
  have hflat : (ofItems items).filterMap (targetIn name) =
      items.filterMap fun x => target? x.imports name := by
    rw [ofItems, List.filterMap_flatMap, List.filterMap_eq_flatMap_toList]
    exact List.flatMap_congr fun x hx => filterMap_imports (h x hx) name
  rw [target?, hflat, List.getLast?_filterMap, List.findSome?_eq_some_iff]
  constructor
  · rintro ⟨after, x, before, hitems, hx, hafter⟩
    have hitems' : items = before.reverse ++ x :: after.reverse := by
      rw [← List.reverse_reverse items, hitems]
      simp
    have hsingle (y : Item) (hy : y ∈ after) : y.IsSingle := h y (by simp [hitems', hy])
    refine ⟨_, x, _, hitems', (target?_imports_iff (h x (by simp [hitems']))).mp hx, ?_⟩
    intro y hy t hbinds
    rw [List.mem_reverse] at hy
    have hsome := (target?_imports_iff (hsingle y hy)).mpr hbinds
    rw [hafter y hy] at hsome
    cases hsome
  · rintro ⟨before, x, after, rfl, hx, hafter⟩
    refine ⟨after.reverse, x, before.reverse, by simp, ?_, ?_⟩
    · exact (target?_imports_iff (h x (by simp))).mpr hx
    · intro y hy
      rw [List.mem_reverse] at hy
      rw [Option.eq_none_iff_forall_ne_some]
      intro t ht
      exact hafter y hy t ((target?_imports_iff (h y (by simp [hy]))).mp ht)

theorem globs_ofItems (h : ∀ x ∈ items, x.IsSingle) :
    (ofItems items).globs = items.filterMap Item.globSource? := by
  rw [globs, ofItems, List.filterMap_flatMap, List.filterMap_eq_flatMap_toList]
  exact List.flatMap_congr fun x hx => (h x hx).globs_imports

theorem isSingle_of_mem_flatMap_singles {x : Item} (hx : x ∈ items.flatMap Item.singles) :
    x.IsSingle := by
  obtain ⟨i, -, hi⟩ := List.mem_flatMap.mp hx
  exact Item.isSingle_of_mem_singles hi

theorem ofItems_flatMap_singles (items : List Item) :
    ofItems (items.flatMap Item.singles) = ofItems items := by
  rw [ofItems, ofItems, List.flatMap_assoc]
  simp only [Item.imports_singles]

/-- **Nested declarations mean single ones.** The imports of items are those of the declarations
without groups that they stand for. A name stands for what the last of these binds it to, and
everything is taken from the paths in front of their asterisks, in order. -/
theorem ofItems_singles (items : List Item) :
    (∀ x ∈ items.flatMap Item.singles, x.IsSingle) ∧
    (ofItems items).Equiv (ofItems (items.flatMap Item.singles)) ∧
    (∀ name target, (ofItems items).target? name = some target ↔
      ∃ before x after, items.flatMap Item.singles = before ++ x :: after ∧ x.Binds name target ∧
        ∀ y ∈ after, ∀ t, ¬ y.Binds name t) ∧
    (ofItems items).globs = (items.flatMap Item.singles).filterMap Item.globSource? := by
  have hsingle : ∀ x ∈ items.flatMap Item.singles, x.IsSingle := fun x =>
    isSingle_of_mem_flatMap_singles
  rw [← ofItems_flatMap_singles items]
  refine ⟨hsingle, ?_, ?_, ?_⟩
  · rw [ofItems_flatMap_singles]
    exact .refl _
  · intro name target
    exact target?_ofItems_iff hsingle
  · exact globs_ofItems hsingle

end Imports

end EnumCatalog
