import EnumCatalog.Proofs.Akin
import EnumCatalog.Proofs.Deletion
import EnumCatalog.Proofs.Steps
import Mathlib.Logic.Relation

/-!
# Imports that are not asked for

An import matters to a path only if resolution comes to the module that has the import, with a name
that the import has something to say on (`Scopes.Asks`). So two lists of scopes that differ in the
imports of one scope find a given meaning for a path alike if they do so wherever the path leads in
that scope (`Scopes.BesideImports.mem_resolveWithin_iff`). In particular an import by a name for
which no attribute asks changes no descriptor (`Spot.descriptors_eq_of_unasked`).
-/

set_option autoImplicit false

namespace EnumCatalog

open Syntax (Attribute Item Use)
open Syntax.Item (scopeCountAll)

namespace Scopes

/-- From a path in a scope, resolution comes to look up a name in a scope. -/
def Asks (ss : Scopes) (a : ScopeId × List String) (id : ScopeId) (name : String) : Prop :=
  ∃ rest, Relation.ReflTransGen ss.Step a (id, name :: rest)

/-- A step leads to no name of a crate that was not there or in an import. -/
theorem Offers.of_step {ss : Scopes} {a b : ScopeId × List String} {x : String}
    (hstep : ss.Step a b) (h : ss.Offers x b.2) : ss.Offers x a.2 := by
  cases hstep with
  | root _ => exact h.mono (List.subset_cons_self _ _)
  | here => exact h.mono (List.subset_cons_self _ _)
  | parent _ => exact h.mono (List.subset_cons_self _ _)
  | child _ _ _ => exact h.mono (List.subset_cons_self _ _)
  | follow hnext _ =>
    cases hnext with
    | binding _ htarget =>
      obtain ⟨s, hs, i, hi, rfl⟩ := exists_import_of_targetOf? htarget
      exact (h.of_import hs hi).mono (List.subset_cons_self _ _)
    | glob _ _ _ hsource =>
      obtain ⟨s, hs, i, hi, rfl⟩ := exists_import_of_mem_globsOf hsource
      exact h.of_import hs hi
    | name _ _ _ => exact h

theorem Asks.offers {ss : Scopes} {a : ScopeId × List String} {id : ScopeId} {name : String}
    (h : ss.Asks a id name) (hname : isRelative [name] = false) : ss.Offers name a.2 := by
  obtain ⟨rest, hsteps⟩ := h
  induction hsteps using Relation.ReflTransGen.head_induction_on with
  | refl => exact ⟨hname, .inl List.mem_cons_self⟩
  | head hstep _ ih => exact ih.of_step hstep

/-- Lists of scopes that differ in the imports of one scope. -/
structure BesideImports (id : ScopeId) (ss ss' : Scopes) : Prop where
  moduleOf? : ∀ j, ss.moduleOf? j = ss'.moduleOf? j
  idOf? : ∀ m, ss.idOf? m = ss'.idOf? m
  targetOf? : ∀ j, j ≠ id → ∀ name, ss.targetOf? j name = ss'.targetOf? j name
  globsOf : ∀ j, j ≠ id → ss.globsOf j = ss'.globsOf j

namespace BesideImports

variable {id : ScopeId} {ss ss' : Scopes} {a b : ScopeId × List String} {q : List String} {n : Nat}

theorem symm (h : BesideImports id ss ss') : BesideImports id ss' ss where
  moduleOf? j := (h.moduleOf? j).symm
  idOf? m := (h.idOf? m).symm
  targetOf? j hj name := (h.targetOf? j hj name).symm
  globsOf j hj := (h.globsOf j hj).symm

theorem parentOf? (h : BesideImports id ss ss') (j : ScopeId) :
    ss.parentOf? j = ss'.parentOf? j :=
  parentOf?_congr (h.moduleOf? j) h.idOf?

theorem childOf? (h : BesideImports id ss ss') (j : ScopeId) (name : String) :
    ss.childOf? j name = ss'.childOf? j name :=
  childOf?_congr (h.moduleOf? j) h.idOf? name

/-- What the scope itself has to say on the first name of a path is the same in both lists. -/
def SaysTheSame (id : ScopeId) (ss ss' : Scopes) (a : ScopeId × List String) : Prop :=
  a.1 = id → ∀ first rest, a.2 = first :: rest → isRelative [first] = false →
    ss.targetOf? id first = ss'.targetOf? id first ∧ ss.globsOf id = ss'.globsOf id

theorem SaysTheSame.symm (h : SaysTheSame id ss ss' a) : SaysTheSame id ss' ss a := by
  intro hid first rest hpath hfirst
  obtain ⟨htarget, hglobs⟩ := h hid first rest hpath hfirst
  exact ⟨htarget.symm, hglobs.symm⟩

theorem targetOf?_eq (h : BesideImports id ss ss') {j : ScopeId} {first : String}
    {rest : List String} (hsame : SaysTheSame id ss ss' (j, first :: rest))
    (hfirst : isRelative [first] = false) : ss.targetOf? j first = ss'.targetOf? j first := by
  by_cases hj : j = id
  · rw [hj]
    exact (hsame hj first rest rfl hfirst).1
  · exact h.targetOf? j hj first

theorem globsOf_eq (h : BesideImports id ss ss') {j : ScopeId} {first : String}
    {rest : List String} (hsame : SaysTheSame id ss ss' (j, first :: rest))
    (hfirst : isRelative [first] = false) : ss.globsOf j = ss'.globsOf j := by
  by_cases hj : j = id
  · rw [hj]
    exact (hsame hj first rest rfl hfirst).2
  · exact h.globsOf j hj

theorem expands (h : BesideImports id ss ss') (hsame : SaysTheSame id ss ss' a)
    (hq : ss.Expands a.1 a.2 q) : ss'.Expands a.1 a.2 q := by
  obtain ⟨j, path⟩ := a
  cases hq with
  | binding hfirst htarget => exact .binding hfirst (h.targetOf?_eq hsame hfirst ▸ htarget)
  | glob hfirst htarget hchild hsource =>
    exact .glob hfirst (h.targetOf?_eq hsame hfirst ▸ htarget) (h.childOf? j _ ▸ hchild)
      (h.globsOf_eq hsame hfirst ▸ hsource)
  | name hfirst htarget hchild =>
    exact .name hfirst (h.targetOf?_eq hsame hfirst ▸ htarget) (h.childOf? j _ ▸ hchild)

theorem step (h : BesideImports id ss ss') (hsame : SaysTheSame id ss ss' a) (hstep : ss.Step a b) :
    ss'.Step a b := by
  cases hstep with
  | root hroot => exact .root (h.idOf? .root ▸ hroot)
  | here => exact .here
  | parent hparent => exact .parent (h.parentOf? _ ▸ hparent)
  | child hfirst htarget hchild =>
    exact .child hfirst (h.targetOf?_eq hsame hfirst ▸ htarget) (h.childOf? _ _ ▸ hchild)
  | follow hnext hrelative => exact .follow (h.expands hsame hnext) hrelative

/-- A meaning of a path is found alike if it is found alike wherever the path leads in the scope of
which the imports differ. -/
theorem mem_resolveWithin_iff (h : BesideImports id ss ss')
    (halike : ∀ first rest, isRelative [first] = false →
      Relation.ReflTransGen ss.Step a (id, first :: rest) →
      (ss.targetOf? id first = ss'.targetOf? id first ∧ ss.globsOf id = ss'.globsOf id) ∨
        ∀ k, q ∈ ss.resolveWithin k id (first :: rest) ↔
          q ∈ ss'.resolveWithin k id (first :: rest)) :
    q ∈ ss.resolveWithin n a.1 a.2 ↔ q ∈ ss'.resolveWithin n a.1 a.2 := by
  induction n generalizing a with
  | zero => rw [resolveWithin, resolveWithin]
  | succ n ih =>
    by_cases hsame : SaysTheSame id ss ss' a
    case neg =>
      -- The path is at the scope already, so it is found alike by what is given.
      unfold SaysTheSame at hsame
      push Not at hsame
      obtain ⟨hid, first, rest, hpath, hfirst, hdiffer⟩ := hsame
      have ha : a = (id, first :: rest) := Prod.ext hid hpath
      subst ha
      rcases halike first rest hfirst .refl with ⟨htarget, hglobs⟩ | hmem
      · exact absurd hglobs (hdiffer htarget)
      · exact hmem (n + 1)
    case pos =>
      have hnext (b : ScopeId × List String) (hstep : ss.Step a b) :
          q ∈ ss.resolveWithin n b.1 b.2 ↔ q ∈ ss'.resolveWithin n b.1 b.2 :=
        ih fun first rest hfirst hsteps => halike first rest hfirst (hsteps.head hstep)
      constructor
      · intro hq
        obtain ⟨hexpands, habsolute⟩ | ⟨b, hstep, hb⟩ := step_or_expands_of_mem_resolveWithin hq
        · exact (h.expands hsame hexpands).mem_resolveWithin habsolute n
        · exact (h.step hsame hstep).mem_resolveWithin ((hnext b hstep).mp hb)
      · intro hq
        obtain ⟨hexpands, habsolute⟩ | ⟨b, hstep, hb⟩ := step_or_expands_of_mem_resolveWithin hq
        · exact (h.symm.expands hsame.symm hexpands).mem_resolveWithin habsolute n
        · have hbefore : ss.Step a b := h.symm.step hsame.symm hstep
          exact hbefore.mem_resolveWithin ((hnext b hbefore).mpr hb)

theorem resolves_iff (h : BesideImports id ss ss') {i : ScopeId} {p : Syntax.Path}
    (halike : p.leading = false → ∀ first rest, isRelative [first] = false →
      Relation.ReflTransGen ss.Step (i, p.names) (id, first :: rest) →
      (ss.targetOf? id first = ss'.targetOf? id first ∧ ss.globsOf id = ss'.globsOf id) ∨
        ∀ k, q ∈ ss.resolveWithin k id (first :: rest) ↔
          q ∈ ss'.resolveWithin k id (first :: rest)) :
    q ∈ ss.resolve i p ↔ q ∈ ss'.resolve i p := by
  unfold resolve
  by_cases hp : p.leading = true
  · rw [if_pos hp, if_pos hp]
  · rw [if_neg hp, if_neg hp]
    exact h.mem_resolveWithin_iff (a := (i, p.names)) (halike (eq_false_of_ne_true hp))

end BesideImports

/-- A list of scopes with other imports in one of them. -/
theorem besideImports (as bs : List Scope) (module? : Option ModulePath) (is js : Imports) :
    BesideImports as.length ⟨as ++ ⟨module?, is⟩ :: bs⟩ ⟨as ++ ⟨module?, js⟩ :: bs⟩ := by
  have hget := get?_eq_or as bs ⟨module?, is⟩ ⟨module?, js⟩
  constructor
  · intro j
    rcases hget j with hj | ⟨-, h₁, h₂⟩
    · rw [moduleOf?, moduleOf?, hj]
    · rw [moduleOf?, moduleOf?, h₁, h₂]
      rfl
  · exact idOf?_eq as bs module? is js
  · intro j hne name
    rw [targetOf?, targetOf?, (hget j).resolve_right fun hj => hne hj.1]
  · intro j hne
    rw [globsOf, globsOf, (hget j).resolve_right fun hj => hne hj.1]

theorem get?_length (as bs : List Scope) (s : Scope) : get? ⟨as ++ s :: bs⟩ as.length = some s := by
  simp [get?]

end Scopes

/-! ## Imports of items at a spot -/

namespace Imports

/-- The imports around a site are those of the items at the site among others. -/
theorem exists_ofItems_surroundings (s : Site) : ∃ as bs : Imports, ∀ xs,
    Imports.ofItems (s.surroundings xs) = as ++ .ofItems xs ++ bs := by
  induction s with
  | here before after =>
    refine ⟨.ofItems before, .ofItems after, fun xs => ?_⟩
    simp only [Imports.ofItems, Site.surroundings, List.flatMap_append]
  | within before head inner after ih => exact ih

theorem target?_insert (as bs : Imports) {x name : String} (target : List String) (h : name ≠ x) :
    target? (as ++ [.binding x target] ++ bs) name = target? (as ++ [] ++ bs) name := by
  have hx : targetIn name (.binding x target) = none := if_neg (by simpa using h.symm)
  simp only [target?, List.filterMap_append, List.filterMap_cons, List.filterMap_nil, hx]

theorem globs_insert (as bs : Imports) (x : String) (target : List String) :
    globs (as ++ [.binding x target] ++ bs) = globs (as ++ [] ++ bs) := by
  simp only [globs, List.filterMap_append, List.filterMap_cons, List.filterMap_nil, globSource]

end Imports

namespace Declarations

variable {o : Cfg.Options} {p : Place} {scope next : ScopeId}

theorem scopeCountAll_eq_zero {xs : List Item} (h : ∀ x ∈ xs, x.scopeCount = 0) :
    scopeCountAll xs = 0 := by
  induction xs with
  | nil => rfl
  | cons x xs ih =>
    rw [scopeCountAll, h x List.mem_cons_self, ih fun y hy => h y (List.mem_cons_of_mem x hy)]

theorem scopes_ofItems_flat {xs : List Item} (h : ∀ x ∈ xs, x.scopeCount = 0) :
    (ofItems o p scope next xs).scopes = [] := by
  rw [← List.length_eq_zero_iff, length_scopes_ofItems, scopeCountAll_eq_zero h]

/-- Items without modules bring their candidates one by one. -/
theorem candidates_ofItems_flat {xs : List Item} (h : ∀ x ∈ xs, x.scopeCount = 0) :
    (ofItems o p scope next xs).candidates =
      xs.flatMap fun x => (ofItem o p scope next x).candidates := by
  induction xs with
  | nil => rfl
  | cons x xs ih =>
    rw [ofItems_cons, candidates_append, h x List.mem_cons_self, Nat.add_zero,
      ih fun y hy => h y (List.mem_cons_of_mem x hy), List.flatMap_cons]

end Declarations

namespace Spot

/-- Items without modules make a difference to the imports around them, and bring candidates. -/
theorem exists_declarations_flat (t : Spot) : ∃ (as bs : List Scope) (module? : Option ModulePath)
    (before after : List Candidate) (place : Place), as.length = t.own ∧
      ∀ xs : List Item, (∀ x ∈ xs, x.scopeCount = 0) →
        (t.program xs).scopes = ⟨as ++ ⟨module?, .ofItems (t.site.surroundings xs)⟩ :: bs⟩ ∧
        (t.program xs).declarations.candidates = before ++
          (xs.flatMap fun x => (Declarations.ofItem t.options place t.own t.first x).candidates) ++
          after := by
  obtain ⟨a, houter, hfirst, -, hput⟩ := t.exists_around
  refine ⟨a.outer, a.beside ++ a.beyond, a.module?, a.before, a.after,
    (Place.ofUnit t.unit).descend t.options t.site.heads, houter, fun xs hxs => ?_⟩
  have hown : a.own 0 = t.own := by rw [Declarations.Around.own, houter, Nat.zero_add]
  have hput := hput xs
  rw [hown, hfirst] at hput
  rw [Program.scopes, hput, Declarations.Around.put, Declarations.scopes_ofItems_flat hxs,
    Declarations.candidates_ofItems_flat hxs]
  constructor
  · simp [Declarations.Around.scopesBefore]
  · simp [Candidate.renumber]

end Spot

/-- An attribute of the candidate comes to look up a name in a scope. -/
def Candidate.Asks (ss : Scopes) (c : Candidate) (id : ScopeId) (name : String) : Prop :=
  ∃ a ∈ c.enum.attrs, a.name.leading = false ∧ ss.Asks (c.scope, a.name.names) id name

/-- No candidate asks for a name in a scope. -/
def Program.Unasked (p : Program) (id : ScopeId) (name : String) : Prop :=
  ∀ c ∈ p.declarations.candidates, ¬ c.Asks p.scopes id name

/-- A fresh name, one that stands in no path of the program, is not asked for. -/
theorem Program.unasked_of_fresh {p : Program} {name : String}
    (hname : Scopes.isRelative [name] = false) (hfresh : ∀ w ∈ p.paths, name ∉ w.map (·.name)) (id : ScopeId) : p.Unasked id name := by
  rintro c hc ⟨a, ha, -, hasks⟩
  obtain ⟨-, hmem | ⟨s, hs, i, hi, hmem⟩⟩ := hasks.offers hname
  · refine hfresh _ (idents_mem_paths hc ha) ?_
    rw [Syntax.Path.map_name_idents]
    exact hmem
  · obtain ⟨w, hw, hwritten⟩ := Declarations.exists_isWrittenIn_ofUnits hs hi
    exact hfresh w hw (hwritten name hmem hname)

namespace Spot

/-- An item that imports something brings neither a module nor a candidate. -/
theorem flat_of_imports {x : Item} (hx : x.imports ≠ []) : x.scopeCount = 0 ∧
    ∀ o place scope next, (Declarations.ofItem o place scope next x).candidates = [] := by
  cases x with
  | use u => exact ⟨rfl, fun _ _ _ _ => rfl⟩
  | externCrate x => exact ⟨rfl, fun _ _ _ _ => rfl⟩
  | _ => exact absurd rfl hx

theorem candidates_program_import (t : Spot) {x : Item} (hx : x.imports ≠ []) :
    (t.program [x]).declarations.candidates = (t.program []).declarations.candidates := by
  obtain ⟨hcount, hnone⟩ := flat_of_imports hx
  obtain ⟨as, bs, module?, before, after, place, -, hdeclarations⟩ := t.exists_declarations_flat
  obtain ⟨-, hwithout⟩ := hdeclarations [] (fun _ h => absurd h List.not_mem_nil)
  obtain ⟨-, hwith⟩ := hdeclarations [x] (by simpa using hcount)
  rw [hwith, hwithout]
  simp [hnone]

/-- Items that import something make a difference to the imports where the spot is. -/
theorem exists_scopes_import (t : Spot) {x : Item} (hx : x.imports ≠ []) :
    ∃ (is js : Imports),
      Scopes.BesideImports t.own (t.program []).scopes (t.program [x]).scopes ∧
      (∀ name, (t.program []).scopes.targetOf? t.own name = (is ++ [] ++ js).target? name) ∧
      (∀ name, (t.program [x]).scopes.targetOf? t.own name = (is ++ x.imports ++ js).target? name) ∧
      (t.program []).scopes.globsOf t.own = (is ++ [] ++ js).globs ∧
      (t.program [x]).scopes.globsOf t.own = (is ++ x.imports ++ js).globs := by
  obtain ⟨as, bs, module?, before, after, place, hown, hdeclarations⟩ := t.exists_declarations_flat
  obtain ⟨hwithout, -⟩ := hdeclarations [] (fun _ h => absurd h List.not_mem_nil)
  obtain ⟨hwith, -⟩ := hdeclarations [x] (by simpa using (flat_of_imports hx).1)
  obtain ⟨is, js, himports⟩ := Imports.exists_ofItems_surroundings t.site
  rw [himports] at hwith hwithout
  have hitems : Imports.ofItems [x] = x.imports := by rw [Imports.ofItems, List.flatMap_singleton]
  have hnil : Imports.ofItems [] = [] := rfl
  rw [hitems] at hwith
  rw [hnil] at hwithout
  rw [hwith, hwithout, ← hown]
  refine ⟨is, js, Scopes.besideImports as bs module? _ _, fun name => ?_, fun name => ?_, ?_, ?_⟩
  · rw [Scopes.targetOf?, Scopes.get?_length, Option.bind_some]
  · rw [Scopes.targetOf?, Scopes.get?_length, Option.bind_some]
  · rw [Scopes.globsOf, Scopes.get?_length, Option.map_some, Option.getD_some]
  · rw [Scopes.globsOf, Scopes.get?_length, Option.map_some, Option.getD_some]

/-- An import by a name that is not asked for changes nothing, the search for the marker's crate
apart. -/
theorem extractAnyway_eq_of_unasked (t : Spot) {x : Item} {name : String} {target : List String}
    (hx : x.imports = [.binding name target]) (hunasked : (t.program []).Unasked t.own name)
    (m : Marker) (crateName : String) (stop : Cancellation) :
    ((t.program [x]).extractAnyway m crateName stop).descriptors =
      ((t.program []).extractAnyway m crateName stop).descriptors := by
  have hne : x.imports ≠ [] := by
    rw [hx]
    exact List.cons_ne_nil _ _
  obtain ⟨is, js, hbeside, hwithout, hwith, hglobs, hglobs'⟩ := t.exists_scopes_import hne
  refine (Program.extractAnyway_congr ?_ stop).symm
  rw [t.candidates_program_import hne]
  refine List.forall₂_same.mpr fun c hc => Candidate.akin_self fun a ha => ?_
  refine hbeside.resolves_iff fun hleading first rest _ hsteps => .inl ?_
  have hfirst : first ≠ name := by
    rintro rfl
    exact hunasked c hc ⟨a, ha, hleading, rest, hsteps⟩
  rw [hwithout, hwith, hglobs, hglobs', hx, Imports.target?_insert is js target hfirst,
    Imports.globs_insert]
  exact ⟨rfl, rfl⟩

end Spot

end EnumCatalog
