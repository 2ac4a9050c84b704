import EnumCatalog.Proofs.Unasked

/-!
# The spellings of a marker

A marker can be written in many ways: as an absolute path, by a name that is imported, by the name
of an imported module or of a crate that goes by another name, through an import of everything, or
by way of a name that the crate root exports (`Wording`). In a module without modules of its own
each of them resolves to the path of the marker (`Scopes.mem_resolve_of_spelling`). And what is
imported for it matters to other paths only if they ask for the name that it brings into scope
(`Scopes.mem_resolve_iff_of_brings`).
-/

set_option autoImplicit false

namespace EnumCatalog

open Syntax (Attribute Item Enum Use UseTree ExternCrate Path)
open Scopes (isRelative)

/-! ## 1. Names -/

namespace Ident

/-- The identifier is no keyword and has no raw mark. -/
def IsPlainName (i : Ident) : Prop := i.raw = false ∧ i.isName = true

instance (i : Ident) : Decidable i.IsPlainName := inferInstanceAs (Decidable (_ ∧ _))

namespace IsPlainName

variable {i : Ident} (h : i.IsPlainName)
include h

theorem text_eq : i.text = i.name := by
  rw [text, h.1]
  rfl

theorem not_mem_reservedWords : i.name ∉ reservedWords := by
  have hname := h.2
  rw [isName, h.1, Bool.false_or] at hname
  simpa using hname

theorem ne_of_mem {w : String} (hw : w ∈ reservedWords) : i.name ≠ w := by
  rintro rfl
  exact h.not_mem_reservedWords hw

theorem not_beq {w : String} (hw : w ∈ reservedWords) : ¬ (i.name == w) = true := by
  simpa using h.ne_of_mem hw

theorem isRelative_eq_false (rest : List String) : isRelative (i.name :: rest) = false := by
  rw [Scopes.isRelative_cons]
  exact Scopes.isRelative_singleton_eq_false.mpr
    ⟨h.ne_of_mem (by decide), h.ne_of_mem (by decide), h.ne_of_mem (by decide)⟩

theorem bindingOf_eq (target : List String) :
    Import.bindingOf i.name target = [.binding i.name target] := by
  rw [Import.bindingOf, if_neg (h.not_beq (by decide))]

end IsPlainName

end Ident

namespace Syntax

/-- The path of these names. -/
def Path.ofIdents (leading : Bool) (is : List Ident) : Path := ⟨leading, is.map (⟨·, none⟩)⟩

@[simp]
theorem Path.names_ofIdents (leading : Bool) (is : List Ident) :
    (Path.ofIdents leading is).names = is.map (·.name) := by
  simp [Path.names, Path.ofIdents]

@[simp]
theorem Path.idents_ofIdents (leading : Bool) (is : List Ident) :
    (Path.ofIdents leading is).idents = is := by
  simp [Path.idents, Path.ofIdents, Function.comp_def]

/-- A tree of one branch: names one below the other, in braces or not, and at the end a leaf. -/
inductive UseTree.IsBranch (leaf : UseTree) : List Ident → UseTree → Prop where
  | leaf : IsBranch leaf [] leaf
  | path {is : List Ident} {t : UseTree} (i : Ident) (h : IsBranch leaf is t) :
      IsBranch leaf (i :: is) (.path i t)
  | group {is : List Ident} {t : UseTree} (trailing : Bool) (h : IsBranch leaf is t) :
      IsBranch leaf is (.group [t] trailing)

/-- Braces around a branch make no difference. -/
theorem UseTree.IsBranch.imports_eq {leaf t : UseTree} {is : List Ident} (h : IsBranch leaf is t)
    (above : List String) : t.imports above = leaf.imports (above ++ is.map (·.name)) := by
  induction h generalizing above with
  | leaf => rw [List.map_nil, List.append_nil]
  | path i _ ih => rw [imports, ih, List.map_cons, List.append_assoc, List.singleton_append]
  | group trailing _ ih => rw [imports, importsAll, importsAll, List.append_nil, ih]

theorem UseTree.IsBranch.paths_eq {leaf t : UseTree} {is : List Ident} (h : IsBranch leaf is t) :
    t.paths = leaf.paths.map (is ++ ·) := by
  induction h with
  | leaf => simp
  | path i _ ih =>
    rw [paths, ih, List.map_map]
    rfl
  | group trailing _ ih => rw [paths, pathsAll, pathsAll, List.append_nil, ih]

end Syntax

/-! ## 2. The spellings -/

/-- The marker with these names. -/
def Marker.ofIdents (is : List Ident) : Marker := ⟨is.map (·.text)⟩

theorem Marker.segments_ofIdents {is : List Ident} (h : ∀ i ∈ is, i.IsPlainName) :
    (Marker.ofIdents is).segments = is.map (·.name) :=
  List.map_congr_left fun i hi => (h i hi).text_eq

/-- The ways to write the marker of a crate in a module: the name that an import binds for it, if
any, the items of the module that import something for it, and the path that is written. The crate
root may export the marker under names of its own. -/
inductive Wording (crate : Ident) (above : List Ident) (n : Ident) (exported : Ident → Prop) :
    Option Ident → List Item → Path → Prop where
  | absolute : Wording crate above n exported none [] (.ofIdents true (crate :: above ++ [n]))
  | relative : Wording crate above n exported none [] (.ofIdents false (crate :: above ++ [n]))
  | name {u : Use} (hu : UseTree.IsBranch (.name n) (crate :: above) u.tree) :
      Wording crate above n exported (some n) [.use u] (.ofIdents false [n])
  | rename {u : Use} {x : Ident} (hx : x.IsPlainName) (hcfg : x.name ≠ "cfg")
      (hu : UseTree.IsBranch (.rename n x) (crate :: above) u.tree) :
      Wording crate above n exported (some x) [.use u] (.ofIdents false [x])
  | renamedModule {u : Use} {y last : Ident} {init : List Ident} (hy : y.IsPlainName)
      (hlast : crate :: above = init ++ [last])
      (hu : UseTree.IsBranch (.rename last y) init u.tree) :
      Wording crate above n exported (some y) [.use u] (.ofIdents false [y, n])
  | glob {u : Use} (hu : UseTree.IsBranch .glob (crate :: above) u.tree) :
      Wording crate above n exported (some n) [.use u] (.ofIdents false [n])
  | externCrate {x : ExternCrate} {z : Ident} (hz : z.IsPlainName) (hident : x.ident = crate)
      (hrename : x.rename = some z) :
      Wording crate above n exported (some z) [.externCrate x]
        (.ofIdents false (z :: above ++ [n]))
  | reexport {u : Use} {w : Ident} (hw : w.IsPlainName) (hcfg : w.name ≠ "cfg")
      (hexported : exported w) (hu : UseTree.IsBranch (.name w) [.plain "crate"] u.tree) :
      Wording crate above n exported (some w) [.use u] (.ofIdents false [w])
  | throughRoot {w : Ident} (hw : w.IsPlainName) (hexported : exported w) :
      Wording crate above n exported none [] (.ofIdents false [.plain "crate", w])

/-! ## 3. What is imported for a spelling -/

/-- Imports that matter to a meaning of a path only if the path asks for one name. -/
inductive Imports.Brings (q : List String) : Option Ident → Imports → Prop where
  | nothing : Brings q none []
  | binding (i : Ident) (target : List String) : Brings q (some i) [.binding i.name target]
  | glob {i : Ident} {source : List String} (hq : q = source ++ [i.name])
      (hsource : ∀ rest, isRelative (source ++ rest) = false) : Brings q (some i) [.glob source]

namespace Imports

variable {i r : Ident} {is : List Ident} {u : Use}

theorem ofItems_use (hi : i.IsPlainName) (hu : UseTree.IsBranch (.name i) is u.tree) :
    ofItems [.use u] = [.binding i.name (is.map (·.name) ++ [i.name])] := by
  have hself : ¬ (i.name == "self") = true := hi.not_beq (by decide)
  rw [ofItems, List.flatMap_singleton, Item.imports, hu.imports_eq, UseTree.imports, if_neg hself,
    List.nil_append]

theorem ofItems_use_rename (hi : i.IsPlainName) (hr : r.IsPlainName)
    (hu : UseTree.IsBranch (.rename i r) is u.tree) :
    ofItems [.use u] = [.binding r.name (is.map (·.name) ++ [i.name])] := by
  have hself : ¬ (i.name == "self") = true := hi.not_beq (by decide)
  rw [ofItems, List.flatMap_singleton, Item.imports, hu.imports_eq, UseTree.imports, if_neg hself,
    hr.bindingOf_eq, List.nil_append]

theorem ofItems_use_glob (hu : UseTree.IsBranch .glob is u.tree) :
    ofItems [.use u] = [.glob (is.map (·.name))] := by
  rw [ofItems, List.flatMap_singleton, Item.imports, hu.imports_eq, UseTree.imports,
    List.nil_append]

theorem ofItems_externCrate {x : ExternCrate} (hx : x.ident.IsPlainName) (hr : r.IsPlainName)
    (hrename : x.rename = some r) :
    ofItems [.externCrate x] = [.binding r.name [x.ident.name]] := by
  have hself : ¬ (x.ident.name == "self") = true := hx.not_beq (by decide)
  rw [ofItems, List.flatMap_singleton, Item.imports, ExternCrate.imports, hrename,
    Option.getD_some, hr.bindingOf_eq, if_neg hself]

end Imports

/-- What is imported for a spelling says something about the name that is written, and nothing
else. -/
theorem Wording.brings {crate n : Ident} {above : List Ident} {exported : Ident → Prop}
    {bound : Option Ident} {items : List Item} {p : Path}
    (h : Wording crate above n exported bound items p)
    (hplain : ∀ i ∈ crate :: above ++ [n], i.IsPlainName) :
    Imports.Brings ((crate :: above ++ [n]).map (·.name)) bound (.ofItems items) := by
  have hcrate : crate.IsPlainName := hplain crate (by simp)
  have hn : n.IsPlainName := hplain n (by simp)
  cases h with
  | absolute => exact .nothing
  | relative => exact .nothing
  | name hu =>
    rw [Imports.ofItems_use hn hu]
    exact .binding n _
  | rename hx _ hu =>
    rw [Imports.ofItems_use_rename hn hx hu]
    exact .binding _ _
  | renamedModule hy hlast hu =>
    rw [Imports.ofItems_use_rename (hplain _ (by simp [hlast])) hy hu]
    exact .binding _ _
  | glob hu =>
    rw [Imports.ofItems_use_glob hu]
    refine .glob (by simp) fun rest => ?_
    exact hcrate.isRelative_eq_false _
  | externCrate hz hident hrename =>
    rw [Imports.ofItems_externCrate (hident ▸ hcrate) hz hrename]
    exact .binding _ _
  | reexport hw _ _ hu =>
    rw [Imports.ofItems_use hw hu]
    exact .binding _ _
  | throughRoot _ _ => exact .nothing

namespace Syntax

theorem Path.not_isWord_of_leading {p : Path} (h : p.leading = true) (w : String) :
    p.isWord w = false := by
  rw [isWord, ident?, h]
  rfl

theorem Path.not_isWord_ofIdents (leading : Bool) (i j : Ident) (is : List Ident) (w : String) :
    (Path.ofIdents leading (i :: j :: is)).isWord w = false := by
  cases leading <;> rfl

theorem Path.not_isWord_single {i : Ident} {w : String} (h : i.name ≠ w) :
    (Path.ofIdents false [i]).isWord w = false := by
  show (!i.raw && i.name == w) = false
  simp [h]

end Syntax

namespace Wording

variable {crate n : Ident} {above : List Ident} {exported : Ident → Prop} {bound : Option Ident}
  {items : List Item} {p : Path}

theorem not_isWord_cfg (h : Wording crate above n exported bound items p) (hn : n.name ≠ "cfg") :
    p.isWord "cfg" = false := by
  cases h with
  | absolute => exact Path.not_isWord_of_leading rfl _
  | relative =>
    cases above with
    | nil => exact Path.not_isWord_ofIdents false crate n [] _
    | cons i is => exact Path.not_isWord_ofIdents false crate i (is ++ [n]) _
  | name _ => exact Path.not_isWord_single hn
  | rename _ hcfg _ => exact Path.not_isWord_single hcfg
  | @renamedModule _ y _ _ _ _ _ => exact Path.not_isWord_ofIdents false y n [] _
  | glob _ => exact Path.not_isWord_single hn
  | @externCrate _ z _ _ _ =>
    cases above with
    | nil => exact Path.not_isWord_ofIdents false z n [] _
    | cons i is => exact Path.not_isWord_ofIdents false z i (is ++ [n]) _
  | reexport _ hcfg _ _ => exact Path.not_isWord_single hcfg
  | @throughRoot w _ _ => exact Path.not_isWord_ofIdents false (.plain "crate") w [] _

/-- What is imported brings neither modules nor candidates. -/
theorem items_eq (h : Wording crate above n exported bound items p) :
    items = [] ∨ (∃ u, items = [.use u]) ∨ ∃ x, items = [.externCrate x] := by
  cases h with
  | absolute => exact .inl rfl
  | relative => exact .inl rfl
  | name _ => exact .inr (.inl ⟨_, rfl⟩)
  | rename _ _ _ => exact .inr (.inl ⟨_, rfl⟩)
  | renamedModule _ _ _ => exact .inr (.inl ⟨_, rfl⟩)
  | glob _ => exact .inr (.inl ⟨_, rfl⟩)
  | externCrate _ _ _ => exact .inr (.inr ⟨_, rfl⟩)
  | reexport _ _ _ _ => exact .inr (.inl ⟨_, rfl⟩)
  | throughRoot _ _ => exact .inl rfl

theorem candidates_eq_nil (h : Wording crate above n exported bound items p) (o : Cfg.Options)
    (place : Place) (scope next : ScopeId) :
    items.flatMap (fun x => (Declarations.ofItem o place scope next x).candidates) = [] := by
  rcases h.items_eq with rfl | ⟨u, rfl⟩ | ⟨x, rfl⟩ <;> rfl

end Wording

/-! ## 4. What a spelling resolves to -/

namespace Scopes

variable {ss : Scopes} {id : ScopeId} {q : List String}

theorem resolve_ofIdents_true (is : List Ident) :
    ss.resolve id (.ofIdents true is) = [is.map (·.name)] := by
  simp [resolve, Path.ofIdents, Path.names]

theorem resolve_ofIdents_false (is : List Ident) :
    ss.resolve id (.ofIdents false is) = ss.resolveWithin maxSteps id (is.map (·.name)) := by
  rw [resolve, if_neg (by simp [Path.ofIdents]), Path.names_ofIdents]

/-- A name that is bound to the beginning of an absolute path. -/
theorem mem_resolve_of_target {i : Ident} {is : List Ident} {target : List String}
    (hi : i.IsPlainName) (htarget : ss.targetOf? id i.name = some target)
    (hq : target ++ is.map (·.name) = q) (habsolute : isRelative q = false) :
    q ∈ ss.resolve id (.ofIdents false (i :: is)) := by
  have hfirst : isRelative [i.name] = false := hi.isRelative_eq_false []
  have hexpands : ss.Expands id (i.name :: is.map (·.name)) q := hq ▸ .binding hfirst htarget
  rw [resolve_ofIdents_false]
  exact hexpands.mem_resolveWithin habsolute 16

/-- What the crate root binds to an absolute path is found by way of the root. -/
theorem mem_resolveWithin_root {root : ScopeId} {w : String} (hroot : ss.idOf? .root = some root)
    (hw : isRelative [w] = false) (htarget : ss.targetOf? root w = some q)
    (habsolute : isRelative q = false) (n : Nat) :
    q ∈ ss.resolveWithin (n + 2) id ["crate", w] := by
  have hexpands : ss.Expands root [w] q := by
    rw [← List.append_nil q]
    exact .binding hw htarget
  have hstep : ss.Step (id, ["crate", w]) (root, [w]) := .root hroot
  exact hstep.mem_resolveWithin (hexpands.mem_resolveWithin habsolute n)

/-- In a scope that has what is imported for a spelling, and no modules, the spelling resolves to
the marker. -/
theorem mem_resolve_of_spelling {crate n : Ident} {above : List Ident} {exported : Ident → Prop}
    {bound : Option Ident} {items : List Item} {p : Path}
    (h : Wording crate above n exported bound items p)
    (hplain : ∀ i ∈ crate :: above ++ [n], i.IsPlainName) {module? : Option ModulePath}
    (hget : ss.get? id = some ⟨module?, .ofItems items⟩)
    (hchild : ∀ name, ss.childOf? id name = none)
    (hexported : ∀ w, exported w → ∃ root, ss.idOf? .root = some root ∧
      ss.targetOf? root w.name = some ((crate :: above ++ [n]).map (·.name))) :
    (crate :: above ++ [n]).map (·.name) ∈ ss.resolve id p := by
  have hcrate : crate.IsPlainName := hplain crate (by simp)
  have hn : n.IsPlainName := hplain n (by simp)
  have habsolute : isRelative ((crate :: above ++ [n]).map (·.name)) = false :=
    hcrate.isRelative_eq_false _
  have htarget (name : String) : ss.targetOf? id name = (Imports.ofItems items).target? name := by
    rw [targetOf?, hget]
    rfl
  -- The imports of one name bind it, and no other.
  have hbound {i : Ident} {target : List String}
      (hitems : Imports.ofItems items = [.binding i.name target]) :
      ss.targetOf? id i.name = some target := by
    rw [htarget, hitems]
    simp [Imports.target?, Imports.targetIn]
  cases h with
  | absolute =>
    rw [resolve_ofIdents_true]
    exact List.mem_singleton_self _
  | relative =>
    have hexpands : ss.Expands id ((crate :: above ++ [n]).map (·.name))
        ((crate :: above ++ [n]).map (·.name)) :=
      .name habsolute (htarget crate.name) (hchild crate.name)
    rw [resolve_ofIdents_false]
    exact hexpands.mem_resolveWithin habsolute 16
  | name hu =>
    refine mem_resolve_of_target hn (hbound (Imports.ofItems_use hn hu)) ?_ habsolute
    simp
  | rename hx _ hu =>
    refine mem_resolve_of_target hx (hbound (Imports.ofItems_use_rename hn hx hu)) ?_ habsolute
    simp
  | renamedModule hy hlast hu =>
    have hitems := Imports.ofItems_use_rename (hplain _ (by simp [hlast])) hy hu
    refine mem_resolve_of_target hy (hbound hitems) ?_ habsolute
    simp [hlast]
  | glob hu =>
    have hglobs : ss.globsOf id = [(crate :: above).map (·.name)] := by
      rw [globsOf, hget, Option.map_some, Option.getD_some, Imports.ofItems_use_glob hu]
      rfl
    have hnone : ss.targetOf? id n.name = none := by
      rw [htarget, Imports.ofItems_use_glob hu]
      rfl
    have hexpands : ss.Expands id [n.name] ((crate :: above).map (·.name) ++ [n.name]) :=
      .glob (hn.isRelative_eq_false []) hnone (hchild n.name) (by rw [hglobs]; simp)
    rw [List.map_append] at habsolute ⊢
    rw [resolve_ofIdents_false]
    exact hexpands.mem_resolveWithin habsolute 16
  | externCrate hz hident hrename =>
    have hitems := Imports.ofItems_externCrate (hident ▸ hcrate) hz hrename
    refine mem_resolve_of_target hz (hbound hitems) ?_ habsolute
    simp [hident]
  | @reexport u w hw _ hexp hu =>
    obtain ⟨root, hroot, hq⟩ := hexported w hexp
    have hbinding : ss.targetOf? id w.name = some ["crate", w.name] :=
      hbound (Imports.ofItems_use hw hu)
    have hfollow : ss.Step (id, [w.name]) (id, ["crate", w.name]) :=
      .follow (.binding (hw.isRelative_eq_false []) hbinding) rfl
    rw [resolve_ofIdents_false]
    exact hfollow.mem_resolveWithin
      (mem_resolveWithin_root hroot (hw.isRelative_eq_false []) hq habsolute 14)
  | @throughRoot w hw hexp =>
    obtain ⟨root, hroot, hq⟩ := hexported w hexp
    rw [resolve_ofIdents_false]
    exact mem_resolveWithin_root hroot (hw.isRelative_eq_false []) hq habsolute 15

/-- In a scope without modules, what is imported for one name matters to a meaning of a path only if
the path asks for that name. -/
theorem mem_resolve_iff_of_brings {as bs : List Scope} {module? : Option ModulePath}
    {is : Imports} {bound : Option Ident} (h : Imports.Brings q bound is) {i : ScopeId} {p : Path}
    (hchild : ∀ name, childOf? ⟨as ++ ⟨module?, []⟩ :: bs⟩ as.length name = none)
    (hunasked : p.leading = false → ∀ b, bound = some b →
      ¬ Asks ⟨as ++ ⟨module?, []⟩ :: bs⟩ (i, p.names) as.length b.name) :
    q ∈ resolve ⟨as ++ ⟨module?, []⟩ :: bs⟩ i p ↔ q ∈ resolve ⟨as ++ ⟨module?, is⟩ :: bs⟩ i p := by
  have hbeside := besideImports as bs module? [] is
  refine hbeside.resolves_iff fun hleading first rest hfirst hsteps => ?_
  have hne : ∀ b, bound = some b → first ≠ b.name := by
    rintro b hb rfl
    exact hunasked hleading b hb ⟨rest, hsteps⟩
  simp only [targetOf?, globsOf, get?_length]
  cases h with
  | nothing => exact .inl ⟨rfl, rfl⟩
  | binding b target =>
    have hb : ¬ (b.name == first) = true := by simpa using (hne b rfl).symm
    refine .inl ⟨?_, rfl⟩
    simp [Imports.target?, Imports.targetIn, hb]
  | @glob b source hq hsource =>
    -- The name finds something more, but nothing that ends like the meaning in question.
    refine .inr fun k => ?_
    cases k with
    | zero => rw [resolveWithin, resolveWithin]
    | succ k =>
      have hchild' := hbeside.childOf? as.length first
      rw [hchild] at hchild'
      have hmore : source ++ first :: rest ≠ q := by
        rintro rfl
        exact hne b rfl (List.cons.inj (List.append_cancel_left hq)).1
      have hnone : targetOf? ⟨as ++ ⟨module?, []⟩ :: bs⟩ as.length first = none := by
        simp [targetOf?, get?_length, Imports.target?]
      have hnone' : targetOf? ⟨as ++ ⟨module?, [.glob source]⟩ :: bs⟩ as.length first = none := by
        simp [targetOf?, get?_length, Imports.target?, Imports.targetIn]
      rw [resolveWithin_name hfirst hnone (hchild first),
        resolveWithin_name hfirst hnone' hchild'.symm]
      simp [globsOf, get?_length, Imports.globs, Imports.globSource, hsource, hmore.symm]

end Scopes

end EnumCatalog
