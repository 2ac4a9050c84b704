import EnumCatalog.Proofs.Deletion
import EnumCatalog.Proofs.Steps
import Mathlib.Logic.Relation

/-!
# Imports by a name of their own module

The path of an import is taken from where the import stands only if it starts with `crate`, `self`
or `super`. If it starts with any other name it is taken for a path from a crate, even where the
module has that name by another import or by a module in it. Writing `self` in front
(`Use.throughSelf`) makes a difference then, and this is told exactly (`mem_resolve_throughSelf`):
what resolution finds apart from the import stays, and each path that the import hands on is
replaced by what that path means in the module.

So nothing changes where such a path stands for itself, as it does behind `extern crate a;` if it
starts with `a`. Behind `use a as p;` it does not, and an enum that is tagged by way of `p` is found
only with `self` in front (`not_resolve_alias`).
-/

set_option autoImplicit false

namespace EnumCatalog

open Syntax (Item Use UseTree)
open Scopes (isRelative)

/-! ## 1. Imports with `self` in front -/

/-- A path, and either the same one or, if it does not lead into this crate by its first name, the
one with `self` in front. -/
def PathTurned (r s : List String) : Prop :=
  s = r ∨ ∃ n t, r = n :: t ∧ isRelative [n] = false ∧ s = "self" :: r

/-- Imports of which the paths are turned. -/
inductive Import.Turned : Import → Import → Prop where
  | binding {name : String} {r s : List String} (h : PathTurned r s) :
      Import.Turned (.binding name r) (.binding name s)
  | glob {r s : List String} (h : PathTurned r s) : Import.Turned (.glob r) (.glob s)

theorem PathTurned.refl (r : List String) : PathTurned r r := .inl rfl

theorem PathTurned.cons_self {n : String} (t : List String) (hn : isRelative [n] = false) :
    PathTurned (n :: t) ("self" :: n :: t) := .inr ⟨n, t, rfl, hn, rfl⟩

theorem PathTurned.append {r s : List String} (h : PathTurned r s) (rest : List String) :
    PathTurned (r ++ rest) (s ++ rest) := by
  obtain rfl | ⟨n, t, rfl, hn, rfl⟩ := h
  · exact .refl _
  · exact .cons_self (t ++ rest) hn

theorem Import.Turned.refl (i : Import) : i.Turned i := by
  cases i with
  | binding name target => exact .binding (.refl target)
  | glob source => exact .glob (.refl source)

namespace Syntax

namespace UseTree

mutual

theorem turned_imports {n : String} (hn : isRelative [n] = false) : ∀ (t : UseTree)
    (above : List String),
    List.Forall₂ Import.Turned (t.imports (n :: above)) (t.imports ("self" :: n :: above))
  | .path i rest, above => by
    rw [imports, imports]
    exact turned_imports hn rest (above ++ [i.name])
  | .name i, above => by
    rw [imports, imports]
    split
    -- The word `self` at the end stands for the path itself, which still ends with the same name.
    · rw [List.getLast?_cons_cons]
      split
      · exact .cons (.binding (.cons_self above hn)) .nil
      · exact .nil
    · exact .cons (.binding (.cons_self _ hn)) .nil
  | .rename i r, above => by
    rw [imports, imports, Import.bindingOf, Import.bindingOf]
    split
    · exact .nil
    refine .cons (.binding ?_) .nil
    split
    · exact .cons_self above hn
    · exact .cons_self _ hn
  | .glob, above => by
    rw [imports, imports]
    exact .cons (.glob (.cons_self above hn)) .nil
  | .group ts _, above => by
    rw [imports, imports]
    exact turned_importsAll hn ts above

theorem turned_importsAll {n : String} (hn : isRelative [n] = false) : ∀ (ts : List UseTree)
    (above : List String),
    List.Forall₂ Import.Turned (importsAll (n :: above) ts) (importsAll ("self" :: n :: above) ts)
  | [], _ => by
    rw [importsAll, importsAll]
    exact .nil
  | t :: ts, above => by
    rw [importsAll, importsAll]
    exact List.rel_append (turned_imports hn t above) (turned_importsAll hn ts above)

end

end UseTree

/-- The declaration with `self` in front of its path. -/
def Use.throughSelf (u : Use) : Use := { u with tree := .path (.plain "self") u.tree }

theorem Use.turned_imports {u : Use} {n : Ident} {rest : UseTree} (hu : u.tree = .path n rest)
    (hn : isRelative [n.name] = false) :
    List.Forall₂ Import.Turned (Item.use u).imports (Item.use u.throughSelf).imports := by
  rw [Item.imports, Item.imports, Use.throughSelf, UseTree.imports, hu, UseTree.imports,
    UseTree.imports]
  exact UseTree.turned_imports hn rest []

end Syntax

/-! ## 2. Scopes with such imports -/

namespace Imports

variable {is js : Imports}

theorem turned_target? (h : List.Forall₂ Import.Turned is js) (name : String) :
    Option.Rel PathTurned (is.target? name) (js.target? name) := by
  have htargets : List.Forall₂ PathTurned (is.filterMap (targetIn name))
      (js.filterMap (targetIn name)) := by
    refine List.rel_filterMap (fun i j hij => ?_) h
    cases hij with
    | binding hrs =>
      rw [targetIn, targetIn]
      split
      · exact .some hrs
      · exact .none
    | glob hrs => exact .none
  rw [target?, target?, List.getLast?_eq_head?_reverse, List.getLast?_eq_head?_reverse]
  have hlast := List.forall₂_reverse_iff.mpr htargets
  generalize (is.filterMap (targetIn name)).reverse = rs,
    (js.filterMap (targetIn name)).reverse = ss at hlast
  cases hlast with
  | nil => exact .none
  | cons hrs _ => exact .some hrs

theorem turned_globs (h : List.Forall₂ Import.Turned is js) :
    List.Forall₂ PathTurned is.globs js.globs := by
  refine List.rel_filterMap (fun i j hij => ?_) h
  cases hij with
  | binding hrs => exact .none
  | glob hrs => exact .some hrs

end Imports

namespace Scopes

/-- Scopes of the same modules, with imports of which the paths are turned. -/
structure Turned (ss ss' : Scopes) : Prop where
  moduleOf? : ∀ i, ss.moduleOf? i = ss'.moduleOf? i
  idOf? : ∀ m, ss.idOf? m = ss'.idOf? m
  targetOf? : ∀ i name, Option.Rel PathTurned (ss.targetOf? i name) (ss'.targetOf? i name)
  globsOf : ∀ i, List.Forall₂ PathTurned (ss.globsOf i) (ss'.globsOf i)

theorem turned_of_imports (as bs : List Scope) {module? : Option ModulePath} {is js : Imports}
    (h : List.Forall₂ Import.Turned is js) :
    Turned ⟨as ++ ⟨module?, is⟩ :: bs⟩ ⟨as ++ ⟨module?, js⟩ :: bs⟩ := by
  have hget := get?_eq_or as bs ⟨module?, is⟩ ⟨module?, js⟩
  have hsame (o : Option (List String)) : Option.Rel PathTurned o o := by
    cases o with
    | none => exact .none
    | some r => exact .some (.refl r)
  -- Only the scope of the imports is another, and only by what they lead to.
  constructor
  · intro i
    rcases hget i with hi | ⟨-, h₁, h₂⟩
    · rw [Scopes.moduleOf?, Scopes.moduleOf?, hi]
    · rw [Scopes.moduleOf?, Scopes.moduleOf?, h₁, h₂]
      rfl
  · exact idOf?_eq as bs module? is js
  · intro i name
    rcases hget i with hi | ⟨-, h₁, h₂⟩
    · rw [Scopes.targetOf?, Scopes.targetOf?, hi]
      exact hsame _
    · rw [Scopes.targetOf?, Scopes.targetOf?, h₁, h₂]
      exact Imports.turned_target? h name
  · intro i
    rcases hget i with hi | ⟨-, h₁, h₂⟩
    · rw [Scopes.globsOf, Scopes.globsOf, hi]
      exact List.forall₂_same.mpr fun r _ => .refl r
    · rw [Scopes.globsOf, Scopes.globsOf, h₁, h₂]
      exact Imports.turned_globs h

variable {ss ss' : Scopes} {i : ScopeId} {path q : List String} {a b : ScopeId × List String}

theorem Turned.parentOf? (h : ss.Turned ss') (i : ScopeId) : ss.parentOf? i = ss'.parentOf? i :=
  parentOf?_congr (h.moduleOf? i) h.idOf?

theorem Turned.childOf? (h : ss.Turned ss') (i : ScopeId) (name : String) :
    ss.childOf? i name = ss'.childOf? i name :=
  childOf?_congr (h.moduleOf? i) h.idOf? name

/-! ## 3. What an import hands on -/

theorem eq_none_iff_of_rel {α β : Type} {R : α → β → Prop} {x : Option α} {y : Option β}
    (h : Option.Rel R x y) : x = none ↔ y = none := by
  cases h with
  | none => exact iff_of_true rfl rfl
  | some _ => exact iff_of_false (Option.some_ne_none _) (Option.some_ne_none _)

/-- What a scope has for a path has a counterpart in a scope of which the imports are related. -/
theorem Expands.exists_rel {R : List String → List String → Prop} (hrefl : ∀ r, R r r)
    (happend : ∀ r s rest, R r s → R (r ++ rest) (s ++ rest))
    (htargets : ∀ name, Option.Rel R (ss.targetOf? i name) (ss'.targetOf? i name))
    (hchildren : ∀ name, ss.childOf? i name = ss'.childOf? i name)
    (hglobs : List.Forall₂ R (ss.globsOf i) (ss'.globsOf i)) (hq : ss.Expands i path q) :
    ∃ r, R q r ∧ ss'.Expands i path r := by
  have hnone {name : String} : ss.targetOf? i name = none → ss'.targetOf? i name = none :=
    (eq_none_iff_of_rel (htargets name)).mp
  cases hq with
  | @binding first rest target hfirst htarget =>
    have hrel := htargets first
    rw [htarget] at hrel
    generalize htarget' : ss'.targetOf? i first = o at hrel
    cases hrel with
    | some hr => exact ⟨_, happend _ _ rest hr, .binding hfirst htarget'⟩
  | @glob first rest source hfirst htarget hchild hsource =>
    obtain ⟨k, hk, rfl⟩ := List.mem_iff_getElem.mp hsource
    have hk' : k < (ss'.globsOf i).length := hglobs.length_eq ▸ hk
    exact ⟨_, happend _ _ (first :: rest) (hglobs.get hk hk'),
      .glob hfirst (hnone htarget) (hchildren first ▸ hchild) (List.getElem_mem hk')⟩
  | @name first rest hfirst htarget hchild =>
    exact ⟨_, hrefl _, .name hfirst (hnone htarget) (hchildren first ▸ hchild)⟩

/-- What a scope has for a path it has still, or it has it with `self` in front. -/
theorem Turned.expands (h : ss.Turned ss') (hq : ss.Expands i path q) :
    ss'.Expands i path q ∨ isRelative q = false ∧ ss'.Expands i path ("self" :: q) := by
  obtain ⟨r, rfl | ⟨n, t, rfl, hn, rfl⟩, hr⟩ := hq.exists_rel PathTurned.refl
    (fun _ _ rest hrs => hrs.append rest) (h.targetOf? i) (h.childOf? i) (h.globsOf i)
  · exact .inl hr
  · exact .inr ⟨hn, hr⟩

/-- What a scope has for a path it had before, or it had it without `self` in front. -/
theorem Turned.expands_before (h : ss.Turned ss') (hq : ss'.Expands i path q) :
    ss.Expands i path q ∨
      ∃ r, q = "self" :: r ∧ isRelative r = false ∧ ss.Expands i path r := by
  have htargets (name : String) :
      Option.Rel (flip PathTurned) (ss'.targetOf? i name) (ss.targetOf? i name) := by
    have hrel := h.targetOf? i name
    generalize ss.targetOf? i name = a, ss'.targetOf? i name = b at hrel
    cases hrel with
    | none => exact .none
    | some hrs => exact .some hrs
  obtain ⟨r, rfl | ⟨n, t, rfl, hn, rfl⟩, hr⟩ := hq.exists_rel (R := flip PathTurned)
    PathTurned.refl (fun _ _ rest hrs => PathTurned.append hrs rest) htargets
    (fun name => (h.childOf? i name).symm) (h.globsOf i).flip
  · exact .inl hr
  · exact .inr ⟨_, rfl, hn, hr⟩

/-- A path leads to an absolute path, in whatever number of steps. -/
def Means (ss : Scopes) (a : ScopeId × List String) (q : List String) : Prop :=
  ∃ k, ss.Leads k a q

/-- Whatever a path written in a scope means is found within the bound. -/
def Settles (ss : Scopes) (id : ScopeId) (path : List String) : Prop :=
  ∀ n, ss.resolveWithin n id path ⊆ ss.resolveWithin maxSteps id path

/-- A path leads to an absolute path that its last scope has for it in both lists of scopes. -/
def LeadsApart (ss ss' : Scopes) (a : ScopeId × List String) (q : List String) : Prop :=
  ∃ b, Relation.ReflTransGen ss.Step a b ∧ ss.Expands b.1 b.2 q ∧ ss'.Expands b.1 b.2 q ∧
    isRelative q = false

/-- A path leads to a scope that has an absolute path for it by an import, and has it with `self` in
front in the other list of scopes. So the import is one that is turned, unless the scope has both
paths in both lists. -/
def HandsOn (ss ss' : Scopes) (a b : ScopeId × List String) : Prop :=
  ∃ path, Relation.ReflTransGen ss.Step a (b.1, path) ∧ ss.Expands b.1 path b.2 ∧
    ss'.Expands b.1 path ("self" :: b.2) ∧ isRelative b.2 = false ∧
    ¬ (ss'.Expands b.1 path b.2 ∧ ss.Expands b.1 path ("self" :: b.2))

theorem Means.step (hstep : ss.Step a b) (h : ss.Means b q) : ss.Means a q := by
  obtain ⟨k, hleads⟩ := h
  exact ⟨k + 1, .step hstep hleads⟩

theorem Means.steps (hsteps : Relation.ReflTransGen ss.Step a b) (h : ss.Means b q) :
    ss.Means a q := by
  induction hsteps using Relation.ReflTransGen.head_induction_on with
  | refl => exact h
  | head hstep _ ih => exact ih.step hstep

theorem LeadsApart.step (hstep : ss.Step a b) (h : ss.LeadsApart ss' b q) :
    ss.LeadsApart ss' a q := by
  obtain ⟨c, hsteps, hc⟩ := h
  exact ⟨c, hsteps.head hstep, hc⟩

theorem HandsOn.step {c : ScopeId × List String} (hstep : ss.Step a b)
    (h : ss.HandsOn ss' b c) : ss.HandsOn ss' a c := by
  obtain ⟨path, hsteps, hc⟩ := h
  exact ⟨path, hsteps.head hstep, hc⟩

/-- A step is taken still. -/
theorem Turned.step (h : ss.Turned ss') (hstep : ss.Step a b) : ss'.Step a b := by
  cases hstep with
  | root hroot => exact .root (h.idOf? .root ▸ hroot)
  | here => exact .here
  | parent hparent => exact .parent (h.parentOf? _ ▸ hparent)
  | @child id child first rest hfirst htarget hchild =>
    exact .child hfirst ((eq_none_iff_of_rel (h.targetOf? id first)).mp htarget)
      (h.childOf? _ first ▸ hchild)
  | follow hnext hrelative =>
    rcases h.expands hnext with hnext | ⟨habsolute, -⟩
    · exact .follow hnext hrelative
    · rw [habsolute] at hrelative
      cases hrelative

theorem Turned.steps (h : ss.Turned ss') (hsteps : Relation.ReflTransGen ss.Step a b) :
    Relation.ReflTransGen ss'.Step a b :=
  Relation.ReflTransGen.mono (fun _ _ => h.step) a b hsteps

/-- A step was taken before, or it follows an import that has `self` in front. -/
theorem Turned.step_before (h : ss.Turned ss') (hstep : ss'.Step a b) :
    ss.Step a b ∨ ∃ r, b = (a.1, "self" :: r) ∧ ss.HandsOn ss' a (a.1, r) := by
  cases hstep with
  | root hroot => exact .inl (.root (h.idOf? .root ▸ hroot))
  | here => exact .inl .here
  | parent hparent => exact .inl (.parent (h.parentOf? _ ▸ hparent))
  | @child id child first rest hfirst htarget hchild =>
    exact .inl (.child hfirst ((eq_none_iff_of_rel (h.targetOf? id first)).mpr htarget)
      (h.childOf? _ first ▸ hchild))
  | @follow id path next hnext hrelative =>
    rcases h.expands_before hnext with hbefore | ⟨r, rfl, habsolute, hbefore⟩
    · exact .inl (.follow hbefore hrelative)
    · by_cases hboth : ss'.Expands id path r ∧ ss.Expands id path ("self" :: r)
      · exact .inl (.follow hboth.2 hrelative)
      · exact .inr ⟨r, rfl, path, .refl, hbefore, hnext, habsolute, hboth⟩

/-- Behind `self` a path means what it means by itself. -/
theorem means_of_means_self {r : List String} (h : ss.Means (i, "self" :: r) q) :
    ss.Means (i, r) q := by
  obtain ⟨k, hleads⟩ := h
  have hmem := mem_resolveWithin_iff.mpr ⟨k, Nat.lt_succ_self k, hleads⟩
  rw [resolveWithin_here] at hmem
  obtain ⟨j, -, hj⟩ := mem_resolveWithin_iff.mp hmem
  exact ⟨j, hj⟩

/-- What a path means: what it leads to apart from the imports that are turned, and what they hand
on. -/
theorem Turned.means_iff (h : ss.Turned ss') :
    ss.Means a q ↔ ss.LeadsApart ss' a q ∨ ∃ i, ss.HandsOn ss' a (i, q) := by
  constructor
  · rintro ⟨k, hleads⟩
    induction hleads with
    | @ends id path q hq habsolute =>
      by_cases hkept : ss'.Expands id path q
      · exact .inl ⟨(id, path), .refl, hq, hkept, habsolute⟩
      · obtain ⟨-, hself⟩ := (h.expands hq).resolve_left hkept
        exact .inr ⟨id, path, .refl, hq, hself, habsolute, fun hboth => hkept hboth.1⟩
    | step hstep _ ih =>
      rcases ih with happart | ⟨i, hhands⟩
      · exact .inl (happart.step hstep)
      · exact .inr ⟨i, hhands.step hstep⟩
  · rintro (⟨b, hsteps, hq, -, habsolute⟩ | ⟨i, path, hsteps, hq, -, habsolute, -⟩)
    · exact Means.steps hsteps ⟨0, .ends hq habsolute⟩
    · exact Means.steps hsteps ⟨0, .ends hq habsolute⟩

/-- With `self` in front of the imports, what they handed on is replaced by what it means where they
stand. -/
theorem Turned.means_iff_through (h : ss.Turned ss') :
    ss'.Means a q ↔ ss.LeadsApart ss' a q ∨ ∃ b, ss.HandsOn ss' a b ∧ ss'.Means b q := by
  constructor
  · rintro ⟨k, hleads⟩
    induction hleads with
    | @ends id path q hq habsolute =>
      rcases h.expands_before hq with hbefore | ⟨r, rfl, -, -⟩
      · exact .inl ⟨(id, path), .refl, hbefore, hq, habsolute⟩
      · cases habsolute
    | @step a b k q hstep hleads ih =>
      rcases h.step_before hstep with hbefore | ⟨r, rfl, hhands⟩
      · rcases ih with happart | ⟨c, hhands, hc⟩
        · exact .inl (happart.step hbefore)
        · exact .inr ⟨c, hhands.step hbefore, hc⟩
      · exact .inr ⟨(a.1, r), hhands, means_of_means_self ⟨k, hleads⟩⟩
  · rintro (⟨b, hsteps, -, hq, habsolute⟩ | ⟨b, ⟨path, hsteps, -, hself, -⟩, hmeans⟩)
    · exact Means.steps (h.steps hsteps) ⟨0, .ends hq habsolute⟩
    · have hfollow : ss'.Step (b.1, path) (b.1, "self" :: b.2) := .follow hself rfl
      exact Means.steps (h.steps hsteps) ((Means.step .here hmeans).step hfollow)

/-- Resolution stays within the bound if it no longer depends on the number of steps from some
number on. -/
theorem settles_of_forall_eq {k : Nat} {qs : List (List String)} (hk : k ≤ maxSteps)
    (h : ∀ n, ss.resolveWithin (n + k) i path = qs) : ss.Settles i path := by
  intro n q hq
  have hmem : q ∈ ss.resolveWithin (n + k) i path := resolveWithin_mono (Nat.le_add_right n k) hq
  rw [h n, ← h (maxSteps - k), Nat.sub_add_cancel hk] at hmem
  exact hmem

/-- An import of an absolute path leads nowhere else. -/
theorem not_step_of_target {first : String} {rest target : List String}
    (hfirst : isRelative [first] = false) (htarget : ss.targetOf? i first = some target)
    (habsolute : isRelative (target ++ rest) = false) : ¬ ss.Step (i, first :: rest) b := by
  intro hstep
  cases hstep with
  | root _ => cases hfirst
  | here => cases hfirst
  | parent _ => cases hfirst
  | child _ hnone _ =>
    rw [htarget] at hnone
    cases hnone
  | follow hnext hrelative =>
    cases hnext with
    | binding _ htarget' =>
      rw [← Option.some.inj (htarget.symm.trans htarget'), habsolute] at hrelative
      cases hrelative
    | glob _ hnone _ _ =>
      rw [htarget] at hnone
      cases hnone
    | name _ hnone _ =>
      rw [htarget] at hnone
      cases hnone

theorem means_iff_of_target {first : String} {rest target : List String}
    (hfirst : isRelative [first] = false) (htarget : ss.targetOf? i first = some target)
    (habsolute : isRelative (target ++ rest) = false) :
    ss.Means (i, first :: rest) q ↔ q = target ++ rest := by
  constructor
  · rintro ⟨k, hleads⟩
    cases hleads with
    | ends hq _ =>
      cases hq with
      | binding _ htarget' => rw [← Option.some.inj (htarget.symm.trans htarget')]
      | glob _ hnone _ _ =>
        rw [htarget] at hnone
        cases hnone
      | name _ hnone _ =>
        rw [htarget] at hnone
        cases hnone
    | step hstep _ => exact absurd hstep (not_step_of_target hfirst htarget habsolute)
  · rintro rfl
    exact ⟨0, .ends (.binding hfirst htarget) habsolute⟩

theorem Settles.mem_iff_means {p : Syntax.Path} (h : ss.Settles i p.names)
    (hp : p.leading = false) : q ∈ ss.resolve i p ↔ ss.Means (i, p.names) q := by
  rw [resolve, if_neg (ne_true_of_eq_false hp)]
  constructor
  · intro hq
    obtain ⟨k, -, hleads⟩ := mem_resolveWithin_iff.mp hq
    exact ⟨k, hleads⟩
  · rintro ⟨k, hleads⟩
    exact h (k + 1) (mem_resolveWithin_iff.mpr ⟨k, Nat.lt_succ_self k, hleads⟩)

end Scopes

/-! ## 4. In a program -/

namespace Spot

/-- A `use` declaration makes a difference to the imports around it and to nothing else. -/
theorem exists_declarations_use (t : Spot) : ∃ (as bs : List Scope) (module? : Option ModulePath)
    (cs : List Candidate), ∀ u : Use, (t.program [.use u]).declarations =
      ⟨as ++ ⟨module?, .ofItems (t.site.surroundings [.use u])⟩ :: bs, cs⟩ := by
  obtain ⟨a, -, -, -, hput⟩ := t.exists_around
  refine ⟨a.outer, a.beside ++ a.beyond, a.module?, a.before ++ a.after, fun u => ?_⟩
  rw [hput]
  ext1
  · simp [Declarations.Around.put, Declarations.Around.scopesBefore, Declarations.ofItems,
      Declarations.ofItem]
  · simp [Declarations.Around.put, Declarations.ofItems, Declarations.ofItem, Candidate.renumber]

/-- Items around a site import the same as before but for the item at the site. -/
theorem turned_imports_surroundings (s : Site) {x y : Item}
    (h : List.Forall₂ Import.Turned x.imports y.imports) :
    List.Forall₂ Import.Turned (Imports.ofItems (s.surroundings [x]))
      (Imports.ofItems (s.surroundings [y])) := by
  have hsame (is : Imports) : List.Forall₂ Import.Turned is is :=
    List.forall₂_same.mpr fun i _ => .refl i
  induction s with
  | here before after =>
    simp only [Imports.ofItems, Site.surroundings, List.flatMap_append, List.flatMap_cons,
      List.flatMap_nil, List.append_nil]
    exact List.rel_append (List.rel_append (hsame _) h) (hsame _)
  | within before head inner after ih => exact ih

theorem turned_scopes (t : Spot) {u : Use} {n : Ident} {rest : UseTree}
    (hu : u.tree = .path n rest) (hn : isRelative [n.name] = false) :
    (t.program [.use u]).scopes.Turned (t.program [.use u.throughSelf]).scopes := by
  obtain ⟨as, bs, module?, cs, hdeclarations⟩ := t.exists_declarations_use
  rw [Program.scopes, Program.scopes, hdeclarations, hdeclarations]
  exact Scopes.turned_of_imports as bs
    (turned_imports_surroundings t.site (Use.turned_imports hu hn))

/-- **Imports by a name of their own module.** Putting `self` in front of an import leaves the
candidates as they are, with the numbers of their scopes. Where resolution stays within the bound,
an attribute's path stands for the same absolute paths as before, apart from those that the import
hands on: each of these is replaced by what it means in the module of the import. So nothing changes
if it means itself and nothing else, or no longer matters. -/
theorem mem_resolve_throughSelf (t : Spot) (u : Use) (n : Ident) (rest : UseTree)
    (hu : u.tree = .path n rest) (hn : isRelative [n.name] = false) (id : ScopeId)
    (p : Syntax.Path) (q : List String) (hp : p.leading = false)
    (hbefore : (t.program [.use u]).scopes.Settles id p.names)
    (hafter : (t.program [.use u.throughSelf]).scopes.Settles id p.names) :
    let before := (t.program [.use u]).scopes
    let after := (t.program [.use u.throughSelf]).scopes
    (t.program [.use u]).declarations.candidates =
        (t.program [.use u.throughSelf]).declarations.candidates ∧
      (q ∈ before.resolve id p ↔
        before.LeadsApart after (id, p.names) q ∨ ∃ i, before.HandsOn after (id, p.names) (i, q)) ∧
      (q ∈ after.resolve id p ↔
        before.LeadsApart after (id, p.names) q ∨
          ∃ b, before.HandsOn after (id, p.names) b ∧ after.Means b q) ∧
      ((∀ b, before.HandsOn after (id, p.names) b → (b.2 = q ↔ after.Means b q)) →
        (q ∈ before.resolve id p ↔ q ∈ after.resolve id p)) := by
  intro before after
  -- The two programs resolve by the same steps, but for the one that the import is.
  have hturned : before.Turned after := t.turned_scopes hu hn
  have hmembefore : q ∈ before.resolve id p ↔ _ :=
    (hbefore.mem_iff_means hp).trans hturned.means_iff
  have hmemafter : q ∈ after.resolve id p ↔ _ :=
    (hafter.mem_iff_means hp).trans hturned.means_iff_through
  refine ⟨?_, hmembefore, hmemafter, fun hself => ?_⟩
  · obtain ⟨as, bs, module?, cs, hdeclarations⟩ := t.exists_declarations_use
    rw [hdeclarations, hdeclarations]
  · rw [hmembefore, hmemafter]
    refine or_congr_right ⟨?_, ?_⟩
    · rintro ⟨i, hhands⟩
      exact ⟨(i, q), hhands, (hself (i, q) hhands).mp rfl⟩
    · rintro ⟨⟨i, r⟩, hhands, hmeans⟩
      obtain rfl : r = q := (hself (i, r) hhands).mpr hmeans
      exact ⟨i, hhands⟩

/-- A file with an `extern crate` declaration before a site. -/
def behindExternCrate : Spot :=
  ⟨.none, [], ⟨⟨"src/lib.rs"⟩, some .root, true, ⟨[], []⟩⟩,
    .here [.externCrate ⟨[], .inherited, .plain "a", none⟩] [], []⟩

/-- An import by the name of a crate. -/
def useOfCrate : Use := ⟨[], .inherited, false, .path (.plain "a") (.name (.plain "b"))⟩

/-- Where the name is that of the crate, `self` in front makes no difference. -/
theorem mem_resolve_behindExternCrate :
    let before := (behindExternCrate.program [.use useOfCrate]).scopes
    let after := (behindExternCrate.program [.use useOfCrate.throughSelf]).scopes
    let p := Syntax.Path.ofIdent (.plain "b")
    p.leading = false ∧ before.Settles 0 p.names ∧ after.Settles 0 p.names ∧
      ["a", "b"] ∈ before.resolve 0 p ∧ ["a", "b"] ∈ after.resolve 0 p := by
  intro before after p
  have hname : before.targetOf? 0 "b" = some ["a", "b"] := rfl
  have hcrate : after.targetOf? 0 "a" = some ["a"] := rfl
  have hbefore : before.Settles 0 p.names := by
    have h (n : Nat) : before.resolveWithin (n + 1) 0 ["b"] = [["a", "b"]] := rfl
    exact Scopes.settles_of_forall_eq (by decide) h
  have hafter : after.Settles 0 p.names := by
    have h (n : Nat) : after.resolveWithin (n + 3) 0 ["b"] = [["a", "b"]] := rfl
    exact Scopes.settles_of_forall_eq (by decide) h
  have hunchanged := (mem_resolve_throughSelf behindExternCrate useOfCrate (.plain "a")
    (.name (.plain "b")) rfl rfl 0 p ["a", "b"] rfl hbefore hafter).2.2.2 ?_
  · have hmem : ["a", "b"] ∈ before.resolve 0 p := List.mem_singleton_self _
    exact ⟨rfl, hbefore, hafter, hmem, hunchanged.mp hmem⟩
  -- The import has one path for the name, and by the other import that path stands for itself.
  rintro ⟨i, r⟩ ⟨path, hsteps, hr, -, habsolute, -⟩
  obtain heq | ⟨c, hstep, -⟩ := hsteps.cases_head
  · obtain ⟨rfl, rfl⟩ := Prod.mk.inj heq
    obtain rfl := (Scopes.means_iff_of_target rfl hname rfl).mp ⟨0, .ends hr habsolute⟩
    exact eq_comm.trans (Scopes.means_iff_of_target rfl hcrate rfl).symm
  · exact absurd hstep (Scopes.not_step_of_target rfl hname rfl)

/-- An import by the name that another import gives to the crate is not followed: the enum is found
only if the import says `self`. -/
theorem not_resolve_alias :
    let before := Program.ofRootText .none "use a as p;\nuse p::b;\n#[b] pub enum C { D }"
    let after := Program.ofRootText .none "use a as p;\nuse self::p::b;\n#[b] pub enum C { D }"
    before.scopes.targetOf? 0 "p" = some ["a"] ∧
      before.scopes.resolve 0 (.ofIdent (.plain "b")) = [["p", "b"]] ∧
      (before.extract ⟨["a", "b"]⟩ "crate" .never).descriptors = [] ∧
      after.scopes.resolve 0 (.ofIdent (.plain "b")) = [["a", "b"]] ∧
      (after.extract ⟨["a", "b"]⟩ "crate" .never).descriptors = [⟨"crate::C", none⟩] := by
  decide +kernel

end Spot

end EnumCatalog
