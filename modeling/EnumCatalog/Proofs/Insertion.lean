import EnumCatalog.Proofs.Site

/-!
# Putting items in

What becomes of the declarations of a program when items are put in at a site. The scopes of the
items come in between, the scopes after them get higher numbers (`shiftFrom`), and the one scope
that the site is directly in may import something else. Nothing else changes: the declarations
around a site are fixed, and those of the items are put in (`Around`, `exists_around_units`).

Whole files are put in in the same way, except that no scope changes its imports
(`declarations_insert_unit`).
-/

set_option autoImplicit false

namespace EnumCatalog

open Syntax (Item Enum Visibility ModuleHead)
open Syntax.Item (scopeCountAll)

/-! ## 1. Making room -/

/-- The numbers of scopes when `k` more come in at `n`. -/
def shiftFrom (n k : Nat) (id : ScopeId) : ScopeId := if id < n then id else id + k

theorem shiftFrom_of_lt {n k : Nat} {id : ScopeId} (h : id < n) : shiftFrom n k id = id := if_pos h

theorem shiftFrom_of_le {n k : Nat} {id : ScopeId} (h : n ≤ id) : shiftFrom n k id = id + k :=
  if_neg (Nat.not_lt.mpr h)

@[simp] theorem shiftFrom_zero (n : Nat) (id : ScopeId) : shiftFrom n 0 id = id := by
  unfold shiftFrom
  split <;> rfl

theorem Candidate.renumber_shiftFrom_of_lt {n k : Nat} {c : Candidate} (h : c.scope < n) :
    c.renumber (shiftFrom n k) = c := by
  rw [Candidate.renumber, shiftFrom_of_lt h]

theorem Candidate.map_renumber_shiftFrom_of_lt {n k : Nat} {cs : List Candidate}
    (h : ∀ c ∈ cs, c.scope < n) : cs.map (·.renumber (shiftFrom n k)) = cs :=
  (List.map_congr_left fun c hc => renumber_shiftFrom_of_lt (h c hc)).trans (List.map_id cs)

theorem getElem?_shiftFrom {α : Type} (as xs bs : List α) (i : Nat) :
    (as ++ xs ++ bs)[shiftFrom as.length xs.length i]? = (as ++ bs)[i]? := by
  rcases Nat.lt_or_ge i as.length with h | h
  · rw [shiftFrom_of_lt h, List.append_assoc, List.getElem?_append_left h,
      List.getElem?_append_left h]
  · rw [shiftFrom_of_le h, List.getElem?_append_right (by simp; omega),
      List.getElem?_append_right h, List.length_append]
    congr 1
    omega

namespace Syntax.Item

theorem scopeCountAll_append (xs ys : List Item) :
    scopeCountAll (xs ++ ys) = scopeCountAll xs + scopeCountAll ys := by
  induction xs with
  | nil => simp [scopeCountAll]
  | cons i xs ih => rw [List.cons_append, scopeCountAll, scopeCountAll, ih, Nat.add_assoc]

theorem scopeCountAll_fill (s : Site) (xs : List Item) :
    scopeCountAll (s.fill xs) = scopeCountAll (s.fill []) + scopeCountAll xs := by
  induction s with
  | here before after =>
    rw [Site.fill, Site.fill, scopeCountAll_append, scopeCountAll_append, scopeCountAll_append,
      scopeCountAll_append, scopeCountAll, Nat.add_zero, Nat.add_right_comm]
  | within before h s after ih =>
    simp only [Site.fill, scopeCountAll_append, scopeCountAll, scopeCount, ih]
    omega

end Syntax.Item

/-- The number of scopes before a site, with the scopes of the items that it is among. -/
def Site.scopeCountBefore : Site → Nat
  | here before _ => 1 + scopeCountAll before
  | within before _ s _ => 1 + scopeCountAll before + s.scopeCountBefore

/-- The number of scopes before the one that a site is directly in. -/
def Site.ownBefore : Site → Nat
  | here _ _ => 0
  | within before _ s _ => 1 + scopeCountAll before + s.ownBefore

/-- A module in braces imports nothing for the items around it. -/
theorem Imports.ofItems_fill_within (before : List Item) (h : ModuleHead) (s : Site)
    (after xs : List Item) :
    Imports.ofItems ((Site.within before h s after).fill xs) = .ofItems (before ++ after) := by
  simp [Imports.ofItems, Site.fill, Syntax.Item.imports]

/-- An item that imports nothing leaves the imports around it as they are. -/
theorem Imports.ofItems_surroundings_eq (s : Site) {x : Item} (hx : x.imports = []) :
    Imports.ofItems (s.surroundings [x]) = .ofItems (s.surroundings []) := by
  induction s with
  | here before after => simp [Imports.ofItems, Site.surroundings, hx]
  | within before h s after ih => exact ih

/-! ## 2. Modules in braces -/

namespace Syntax.Item

mutual

/-- The paths of the modules in braces that an item of a module holds. -/
def modules (m : ModulePath) : Item → List ModulePath
  | .inlineModule h items => m.child h.ident.name :: modulesAll (m.child h.ident.name) items
  | _ => []

/-- The paths of the modules in braces that items of a module hold. -/
def modulesAll (m : ModulePath) : List Item → List ModulePath
  | [] => []
  | i :: rest => i.modules m ++ modulesAll m rest

end

end Syntax.Item

namespace Declarations

attribute [ext] Declarations

mutual

theorem modules_of_mem_scopes_ofItem {o : Cfg.Options} {p : Place} {scope next : ScopeId} {i : Item}
    {s : Scope} (hs : s ∈ (ofItem o p scope next i).scopes) (path : ModulePath)
    (hpath : s.module? = some path) : ∃ m, p.module? = some m ∧ path ∈ i.modules m := by
  cases i with
  | enum e =>
    rw [ofItem, scopes_ofEnum] at hs
    cases hs
  | inlineModule h items =>
    rw [scopes_ofItem_inlineModule] at hs
    rcases List.mem_cons.mp hs with rfl | hs
    · obtain ⟨m, hm, rfl⟩ := Option.map_eq_some_iff.mp hpath
      exact ⟨m, hm, List.mem_cons_self⟩
    · obtain ⟨_, hchild, hmem⟩ := modules_of_mem_scopes_ofItems hs path hpath
      obtain ⟨m, hm, rfl⟩ := Option.map_eq_some_iff.mp hchild
      exact ⟨m, hm, List.mem_cons_of_mem _ hmem⟩
  | _ => cases hs

theorem modules_of_mem_scopes_ofItems {o : Cfg.Options} {p : Place} {scope next : ScopeId}
    {xs : List Item} {s : Scope} (hs : s ∈ (ofItems o p scope next xs).scopes) (path : ModulePath)
    (hpath : s.module? = some path) :
    ∃ m, p.module? = some m ∧ path ∈ Syntax.Item.modulesAll m xs := by
  cases xs with
  | nil => cases hs
  | cons i rest =>
    rw [ofItems_cons, scopes_append, List.mem_append] at hs
    rcases hs with hs | hs
    · obtain ⟨m, hm, hmem⟩ := modules_of_mem_scopes_ofItem hs path hpath
      exact ⟨m, hm, List.mem_append_left _ hmem⟩
    · obtain ⟨m, hm, hmem⟩ := modules_of_mem_scopes_ofItems hs path hpath
      exact ⟨m, hm, List.mem_append_right _ hmem⟩

end

/-! ## 3. Around a site -/

/-- The declarations of a scope: the scope itself and what its items declare. -/
def ofBlock (o : Cfg.Options) (p : Place) (next : ScopeId) (items : List Item) : Declarations :=
  ⟨[⟨p.module?, .ofItems items⟩], []⟩ ++ ofItems o p next (next + 1) items

theorem ofItem_inlineModule (o : Cfg.Options) (p : Place) (scope next : ScopeId) (h : ModuleHead)
    (items : List Item) :
    ofItem o p scope next (.inlineModule h items) = ofBlock o (p.within o h) next items := rfl

theorem ofUnit_eq_ofBlock (o : Cfg.Options) (next : ScopeId) (u : SourceUnit) :
    ofUnit o next u = ofBlock o (.ofUnit u) next u.source.items := rfl

theorem length_scopes_ofBlock (o : Cfg.Options) (p : Place) (next : ScopeId) (items : List Item) :
    (ofBlock o p next items).scopes.length = scopeCountAll items + 1 := by
  show (_ :: (ofItems o p next (next + 1) items).scopes).length = _
  rw [List.length_cons, length_scopes_ofItems]

/-- The declarations around a site: the scopes before the one that the site is directly in, the
module of that scope, and the scopes between it and the site; the scopes beyond the site; and the
candidates before and after it. The candidates after it have the numbers of an empty site. -/
structure Around where
  outer : List Scope
  module? : Option ModulePath
  beside : List Scope
  beyond : List Scope
  before : List Candidate
  after : List Candidate

namespace Around

/-- The number of the scope that the site is directly in. -/
def own (a : Around) (next : Nat) : Nat := next + a.outer.length

/-- The number of the first scope that is put in at the site. -/
def first (a : Around) (next : Nat) : Nat := a.own next + 1 + a.beside.length

/-- The scopes before those that are put in, of which the one around the site has certain
imports. -/
def scopesBefore (a : Around) (is : Imports) : List Scope :=
  a.outer ++ ⟨a.module?, is⟩ :: a.beside

/-- The declarations with others put in, when scopes are numbered from `next` on. -/
def put (a : Around) (next : Nat) (is : Imports) (x : Declarations) : Declarations :=
  ⟨a.scopesBefore is ++ x.scopes ++ a.beyond,
    a.before ++ x.candidates ++ a.after.map (·.renumber (shiftFrom (a.first next) x.scopes.length))⟩

theorem length_scopesBefore (a : Around) (is : Imports) :
    (a.scopesBefore is).length = a.outer.length + 1 + a.beside.length := by
  simp [scopesBefore]
  omega

theorem first_eq (a : Around) (next : Nat) (is : Imports) :
    a.first next = next + (a.scopesBefore is).length := by
  rw [length_scopesBefore, first, own]
  omega

end Around

/-- Behind the room that is made, the declarations of items are the same ones shifted. -/
theorem ofItems_shiftFrom (o : Cfg.Options) (p : Place) {scope n next : Nat} (k : Nat)
    (xs : List Item) (hs : scope < n) (hn : n ≤ next) :
    ofItems o p scope (next + k) xs = (ofItems o p scope next xs).renumber (shiftFrom n k) := by
  have h := ofItems_renumber o p scope next (next + k) (shiftFrom n k) xs fun j _ => by
    rw [shiftFrom_of_le (Nat.le_add_right_of_le hn), Nat.add_right_comm]
  rw [shiftFrom_of_lt hs] at h
  exact h

theorem scope_lt_of_mem_ofItems {o : Cfg.Options} {p : Place} {scope next n : Nat}
    {xs : List Item} {c : Candidate} (hc : c ∈ (ofItems o p scope next xs).candidates)
    (hs : scope < n) (hn : next + scopeCountAll xs ≤ n) : c.scope < n := by
  rcases scope_of_mem_ofItems hc with h | ⟨j, hj, h⟩
  · rw [h]
    exact hs
  · rw [h]
    exact Nat.lt_of_lt_of_le (Nat.add_lt_add_left hj next) hn

theorem exists_around_here (o : Cfg.Options) (p : Place) (next : Nat) (before after : List Item) :
    ∃ a : Around, a.outer.length = 0 ∧ a.first next = next + (1 + scopeCountAll before) ∧
      (∀ c ∈ a.before, c.scope < a.first next) ∧
      ∀ xs, ofBlock o p next (before ++ xs ++ after) =
        a.put next (.ofItems (before ++ xs ++ after))
          (ofItems o p (a.own next) (a.first next) xs) := by
  let b := ofItems o p next (next + 1) before
  let e := ofItems o p next (next + 1 + scopeCountAll before) after
  let a : Around := ⟨[], p.module?, b.scopes, e.scopes, b.candidates, e.candidates⟩
  have hown : a.own next = next := rfl
  have hfirst : a.first next = next + 1 + scopeCountAll before :=
    congrArg (next + 1 + ·) (length_scopes_ofItems o p next (next + 1) before)
  refine ⟨a, rfl, by omega, fun c hc => ?_, fun xs => ?_⟩
  · rw [hfirst]
    exact scope_lt_of_mem_ofItems hc (by omega) (Nat.le_refl _)
  · have he : ofItems o p next (next + 1 + scopeCountAll (before ++ xs)) after =
        e.renumber (shiftFrom (a.first next) (scopeCountAll xs)) := by
      rw [Syntax.Item.scopeCountAll_append, ← Nat.add_assoc]
      exact ofItems_shiftFrom o p _ after (by omega) (Nat.le_of_eq hfirst)
    rw [ofBlock, ofItems_append, ofItems_append, he, hown, hfirst]
    ext1
    · simp [Around.put, Around.scopesBefore, renumber, a, b]
    · simp [Around.put, renumber, a, b, hfirst, length_scopes_ofItems]

/-- From a module in braces outwards. -/
theorem exists_around_within {o : Cfg.Options} {p : Place} {next : Nat} {s : Site}
    {h : ModuleHead} (before after : List Item) {i : Around} (houter : i.outer.length = s.ownBefore)
    (hn : i.first (next + 1 + scopeCountAll before) =
      next + 1 + scopeCountAll before + s.scopeCountBefore)
    (hi : ∀ c ∈ i.before, c.scope < i.first (next + 1 + scopeCountAll before))
    (hput : ∀ xs, ofBlock o (p.within o h) (next + 1 + scopeCountAll before) (s.fill xs) =
      i.put (next + 1 + scopeCountAll before) (.ofItems (s.surroundings xs))
        (ofItems o ((p.within o h).descend o s.heads) (i.own (next + 1 + scopeCountAll before))
          (i.first (next + 1 + scopeCountAll before)) xs)) :
    ∃ a : Around, a.outer.length = 1 + scopeCountAll before + s.ownBefore ∧
      a.first next = next + (1 + scopeCountAll before + s.scopeCountBefore) ∧
      (∀ c ∈ a.before, c.scope < a.first next) ∧
      ∀ xs, ofBlock o p next (before ++ .inlineModule h (s.fill xs) :: after) =
        a.put next (.ofItems (s.surroundings xs))
          (ofItems o ((p.within o h).descend o s.heads) (a.own next) (a.first next) xs) := by
  let inner := next + 1 + scopeCountAll before
  let behind := inner + (scopeCountAll (s.fill []) + 1)
  let b := ofItems o p next (next + 1) before
  let e := ofItems o p next behind after
  let own : Scope := ⟨p.module?, .ofItems (before ++ after)⟩
  let a : Around := ⟨own :: (b.scopes ++ i.outer), i.module?, i.beside, i.beyond ++ e.scopes,
    b.candidates ++ i.before, i.after ++ e.candidates⟩
  have hlen : b.scopes.length = scopeCountAll before := length_scopes_ofItems _ _ _ _ _
  have hown : a.own next = i.own inner := by
    simp only [Around.own, a, List.length_cons, List.length_append, hlen, inner]
    omega
  have hfirst : a.first next = i.first inner := by
    rw [Around.first, Around.first, hown]
  -- The room is made within the module, before the items that follow it.
  -- The site is within the file, so what follows the file comes after the room that is made.
  have hbehind : i.first inner ≤ behind := by
    have h0 := congrArg (·.scopes.length) (hput [])
    simp only [length_scopes_ofBlock, Around.put, List.length_append, i.length_scopesBefore] at h0
    simp only [Around.first, Around.own, behind]
    omega
  have hpos : inner < i.first inner := by
    simp only [Around.first, Around.own]
    omega
  have houters : a.outer.length = 1 + scopeCountAll before + s.ownBefore := by
    simp only [a, List.length_cons, List.length_append, hlen, houter]
    omega
  refine ⟨a, houters, hfirst.trans (hn.trans (by omega)), fun c hc => ?_, fun xs => ?_⟩
  · rw [hfirst]
    rcases List.mem_append.mp hc with hc | hc
    · exact scope_lt_of_mem_ofItems hc (by omega) (Nat.le_of_lt hpos)
    · exact hi c hc
  · have he : ofItems o p next (inner + (scopeCountAll (s.fill xs) + 1)) after =
        e.renumber (shiftFrom (a.first next) (scopeCountAll xs)) := by
      rw [Syntax.Item.scopeCountAll_fill, Nat.add_right_comm (scopeCountAll (s.fill [])),
        ← Nat.add_assoc]
      exact ofItems_shiftFrom o p _ after (by omega) (by omega)
    rw [ofBlock, ofItems_append, ofItems_cons, ofItem_inlineModule, Syntax.Item.scopeCount, he,
      hput xs, hown, hfirst]
    have himports : Imports.ofItems (before ++ .inlineModule h (s.fill xs) :: after) =
        .ofItems (before ++ after) := Imports.ofItems_fill_within before h s after xs
    ext1
    · simp [Around.put, Around.scopesBefore, renumber, a, b, own, himports, inner]
    · simp [Around.put, renumber, a, b, hfirst, length_scopes_ofItems, inner]

/-- What stands around a site in a scope does not depend on what is at the site. -/
theorem exists_around (o : Cfg.Options) (p : Place) (next : Nat) (s : Site) :
    ∃ a : Around, a.outer.length = s.ownBefore ∧ a.first next = next + s.scopeCountBefore ∧
      (∀ c ∈ a.before, c.scope < a.first next) ∧
      ∀ xs, ofBlock o p next (s.fill xs) = a.put next (.ofItems (s.surroundings xs))
        (ofItems o (p.descend o s.heads) (a.own next) (a.first next) xs) := by
  induction s generalizing p next with
  | here before after => exact exists_around_here o p next before after
  | within before h s after ih =>
    obtain ⟨i, houter, hn, hi, hput⟩ := ih (p.within o h) (next + 1 + scopeCountAll before)
    exact exists_around_within before after houter hn hi hput

/-! ## 4. In a program -/

/-- The number of scopes of files. -/
def scopeCountOf : List SourceUnit → Nat
  | [] => 0
  | u :: us => scopeCountAll u.source.items + 1 + scopeCountOf us

theorem length_scopes_ofUnits (o : Cfg.Options) (next : ScopeId) (us : List SourceUnit) :
    (ofUnits o next us).scopes.length = scopeCountOf us := by
  induction us generalizing next with
  | nil => rfl
  | cons u us ih =>
    rw [ofUnits, scopes_append, List.length_append, ih, ofUnit_eq_ofBlock, length_scopes_ofBlock,
      scopeCountOf]

theorem ofUnits_cons (o : Cfg.Options) (next : ScopeId) (u : SourceUnit) (us : List SourceUnit) :
    ofUnits o next (u :: us) =
      ofUnit o next u ++ ofUnits o (next + (scopeCountAll u.source.items + 1)) us := by
  rw [ofUnits, ofUnit_eq_ofBlock, length_scopes_ofBlock]

theorem ofUnits_append (o : Cfg.Options) (next : ScopeId) (us vs : List SourceUnit) :
    ofUnits o next (us ++ vs) = ofUnits o next us ++ ofUnits o (next + scopeCountOf us) vs := by
  induction us generalizing next with
  | nil => rw [List.nil_append, ofUnits, empty_append, scopeCountOf, Nat.add_zero]
  | cons u us ih =>
    rw [List.cons_append, ofUnits_cons, ih, ofUnits_cons, append_assoc, scopeCountOf, Nat.add_assoc]

theorem ofBlock_shiftFrom (o : Cfg.Options) (p : Place) {n next : Nat} (k : Nat)
    (items : List Item) (hn : n ≤ next) :
    ofBlock o p (next + k) items = (ofBlock o p next items).renumber (shiftFrom n k) := by
  have h := ofItems_renumber o p next (next + 1) (next + k + 1) (shiftFrom n k) items fun j _ => by
    rw [shiftFrom_of_le (by omega), Nat.add_right_comm _ j k, Nat.add_right_comm next 1 k]
  rw [shiftFrom_of_le hn] at h
  rw [ofBlock, ofBlock, renumber_append, h]
  rfl

theorem ofUnits_shiftFrom (o : Cfg.Options) {n next : Nat} (k : Nat) (us : List SourceUnit)
    (hn : n ≤ next) :
    ofUnits o (next + k) us = (ofUnits o next us).renumber (shiftFrom n k) := by
  induction us generalizing next with
  | nil => rfl
  | cons u us ih =>
    rw [ofUnits_cons, ofUnits_cons, renumber_append, Nat.add_right_comm next k,
      ih (Nat.le_add_right_of_le hn), ofUnit_eq_ofBlock, ofBlock_shiftFrom o _ k _ hn]
    rfl

theorem scope_lt_of_mem_ofUnits {o : Cfg.Options} {next : Nat} {us : List SourceUnit}
    {c : Candidate} (hc : c ∈ (ofUnits o next us).candidates) :
    c.scope < next + scopeCountOf us := by
  obtain ⟨_, _, _, _, _, j, hj, hget⟩ := exists_site_of_mem_ofUnits hc
  have hlt := (List.getElem?_eq_some_iff.mp hget).1
  rw [length_scopes_ofUnits] at hlt
  rw [hj]
  exact Nat.add_lt_add_left hlt next

end Declarations

/-- The file with other items. -/
def SourceUnit.withItems (u : SourceUnit) (items : List Item) : SourceUnit :=
  { u with source := { u.source with items := items } }

namespace Declarations

/-- What stands around a site in a program does not depend on what is at the site. -/
theorem exists_around_units (o : Cfg.Options) (next : Nat) (us : List SourceUnit) (u : SourceUnit)
    (s : Site) (vs : List SourceUnit) :
    ∃ a : Around, a.outer.length = scopeCountOf us + s.ownBefore ∧
      a.first next = next + (scopeCountOf us + s.scopeCountBefore) ∧
      (∀ c ∈ a.before, c.scope < a.first next) ∧
      ∀ xs, ofUnits o next (us ++ u.withItems (s.fill xs) :: vs) =
        a.put next (.ofItems (s.surroundings xs))
          (ofItems o ((Place.ofUnit u).descend o s.heads) (a.own next) (a.first next) xs) := by
  -- Where the numbers of the file start, and those of the files behind it if nothing is at the
  -- site.
  let inner := next + scopeCountOf us
  obtain ⟨i, houter, hn, hi, hput⟩ := exists_around o (.ofUnit u) inner s
  let behind := inner + (scopeCountAll (s.fill []) + 1)
  let b := ofUnits o next us
  let e := ofUnits o behind vs
  let a : Around := ⟨b.scopes ++ i.outer, i.module?, i.beside, i.beyond ++ e.scopes,
    b.candidates ++ i.before, i.after ++ e.candidates⟩
  have hlen : b.scopes.length = scopeCountOf us := length_scopes_ofUnits _ _ _
  have hown : a.own next = i.own inner := by
    simp only [Around.own, a, List.length_append, hlen, inner]
    omega
  have hfirst : a.first next = i.first inner := by
    rw [Around.first, Around.first, hown]
  have hbehind : i.first inner ≤ behind := by
    have h0 := congrArg (·.scopes.length) (hput [])
    simp only [length_scopes_ofBlock, Around.put, List.length_append, i.length_scopesBefore] at h0
    simp only [Around.first, Around.own, behind]
    omega
  have hpos : inner < i.first inner := by
    simp only [Around.first, Around.own]
    omega
  have houters : a.outer.length = scopeCountOf us + s.ownBefore := by
    rw [List.length_append, hlen, houter]
  refine ⟨a, houters, by omega, fun c hc => ?_, fun xs => ?_⟩
  · rw [hfirst]
    rcases List.mem_append.mp hc with hc | hc
    · exact Nat.lt_trans (scope_lt_of_mem_ofUnits hc) hpos
    · exact hi c hc
  -- The files behind are numbered from where the items leave off.
  · have he : ofUnits o (inner + (scopeCountAll (s.fill xs) + 1)) vs =
        e.renumber (shiftFrom (a.first next) (scopeCountAll xs)) := by
      rw [Syntax.Item.scopeCountAll_fill, Nat.add_right_comm (scopeCountAll (s.fill [])),
        ← Nat.add_assoc]
      exact ofUnits_shiftFrom o _ vs (by omega)
    have hu : ofUnit o inner (u.withItems (s.fill xs)) = i.put inner (.ofItems (s.surroundings xs))
        (ofItems o ((Place.ofUnit u).descend o s.heads) (i.own inner) (i.first inner) xs) := hput xs
    rw [ofUnits_append, ofUnits_cons, hu, hown, hfirst]
    show _ ++ (_ ++ ofUnits o (inner + (scopeCountAll (s.fill xs) + 1)) vs) = _
    rw [he]
    ext1
    · simp [Around.put, Around.scopesBefore, renumber, a, b]
    · simp [Around.put, renumber, a, b, hfirst, length_scopes_ofItems]

/-! ## 5. Insertions -/

/-- Declarations with others put in where scope number `n` is: what comes before stays, and what
comes after gets higher numbers. -/
def IsInsertion (n : Nat) (d x d' : Declarations) : Prop :=
  ∃ (as bs : List Scope) (before after : List Candidate),
    as.length = n ∧ (∀ c ∈ before, c.scope < n) ∧
    d = ⟨as ++ bs, before ++ after⟩ ∧
    d' = ⟨as ++ x.scopes ++ bs,
      before ++ x.candidates ++ after.map (·.renumber (shiftFrom n x.scopes.length))⟩

/-- Around a site, declarations are put in if the imports stay as they are. -/
theorem Around.isInsertion_put {a : Around} {is : Imports} {x : Declarations}
    (h : ∀ c ∈ a.before, c.scope < a.first 0) :
    IsInsertion (a.first 0) (a.put 0 is empty) x (a.put 0 is x) := by
  refine ⟨a.scopesBefore is, a.beyond, a.before, a.after, ?_, h, ?_, rfl⟩
  · rw [a.first_eq 0 is, Nat.zero_add]
  · ext1
    · simp [put]
    · have hid : a.after.map (·.renumber (shiftFrom (a.first 0) 0)) = a.after := by
        simp [Candidate.renumber]
      simp [put, hid]

/-- A file is put in: those after it have higher numbers. -/
theorem ofUnits_insert (o : Cfg.Options) (us : List SourceUnit) (u : SourceUnit)
    (vs : List SourceUnit) :
    ofUnits o 0 (us ++ u :: vs) =
      ofUnits o 0 us ++ ofUnit o (scopeCountOf us) u ++
        (ofUnits o (scopeCountOf us) vs).renumber
          (shiftFrom (scopeCountOf us) (ofUnit o (scopeCountOf us) u).scopes.length) := by
  rw [ofUnits_append, Nat.zero_add, ofUnits_cons, ofUnits_shiftFrom o _ vs (Nat.le_refl _),
    append_assoc, ofUnit_eq_ofBlock, length_scopes_ofBlock]

theorem isInsertion_ofUnits (o : Cfg.Options) (us : List SourceUnit) (u : SourceUnit)
    (vs : List SourceUnit) :
    IsInsertion (scopeCountOf us) (ofUnits o 0 (us ++ vs)) (ofUnit o (scopeCountOf us) u)
      (ofUnits o 0 (us ++ u :: vs)) := by
  refine ⟨(ofUnits o 0 us).scopes, (ofUnits o (scopeCountOf us) vs).scopes,
    (ofUnits o 0 us).candidates, (ofUnits o (scopeCountOf us) vs).candidates,
    length_scopes_ofUnits o 0 us, fun c hc => ?_, ?_, ?_⟩
  · have h := scope_lt_of_mem_ofUnits hc
    rw [Nat.zero_add] at h
    exact h
  · rw [ofUnits_append, Nat.zero_add]
    rfl
  · rw [ofUnits_insert]
    rfl

end Declarations

end EnumCatalog
