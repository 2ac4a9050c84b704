import EnumCatalog.Proofs.Site
import EnumCatalog.Proofs.Steps
import Mathlib.Logic.Relation

/-!
# Numbers of scopes

A scope is a list of items that has a number, and a candidate knows its scope by that number alone.
The lists themselves are found by going down a program (`Program.blocks`), with no numbers at all.
Numbering them in that order gives the scopes, and the candidates with the number of a list are the
enums that stand directly in it, no more and no fewer (`filter_candidates_ofUnits`).

So a number that a candidate has is one that the scopes have. It stays so during resolution, which
goes from a number to others by its steps (`Scopes.Step.inRange`): a resolution that first makes
sure that there is a scope with the number it has come to, and gives up otherwise
(`Scopes.resolve?`), never gives up.
-/

set_option autoImplicit false

namespace EnumCatalog

open Syntax (Item Enum ModuleHead)
open Syntax.Item (scopeCountAll)

/-! ## 1. Lists of items in their places -/

/-- A list of items in its place: the items of a file, or those of a module in braces. -/
structure Block where
  place : Place
  items : List Item

namespace Block

/-- The scope that a list of items is. -/
def scope (b : Block) : Scope := ⟨b.place.module?, .ofItems b.items⟩

/-- The candidates directly among the items, if their scope has the given number. -/
def candidates (o : Cfg.Options) (id : ScopeId) (b : Block) : List Candidate :=
  b.items.flatMap fun
    | .enum e => (Declarations.ofEnum o b.place id e).candidates
    | _ => []

/-- A candidate among the items is one of their enums, in their place and with their number. -/
theorem of_mem_candidates {o : Cfg.Options} {id : ScopeId} {b : Block} {c : Candidate}
    (hc : c ∈ b.candidates o id) :
    .enum c.enum ∈ b.items ∧ c.module? = b.place.module? ∧ c.scope = id := by
  obtain ⟨i, hi, hc⟩ := List.mem_flatMap.mp hc
  cases i with
  | enum e =>
    simp only [Declarations.ofEnum] at hc
    split at hc
    · rw [List.mem_singleton.mp hc]
      exact ⟨hi, rfl, rfl⟩
    · cases hc
  | _ => cases hc

end Block

mutual

/-- The lists of items within an item, each before those that are within it. -/
def Syntax.Item.blocks (o : Cfg.Options) (p : Place) : Item → List Block
  | .inlineModule h items =>
    ⟨p.within o h, items⟩ :: Syntax.Item.blocksAll o (p.within o h) items
  | _ => []

/-- The lists of items within items. -/
def Syntax.Item.blocksAll (o : Cfg.Options) (p : Place) : List Item → List Block
  | [] => []
  | i :: rest => i.blocks o p ++ Syntax.Item.blocksAll o p rest

end

open Syntax.Item (blocksAll)

/-- The lists of items of a file, first its own. -/
def SourceUnit.blocks (o : Cfg.Options) (u : SourceUnit) : List Block :=
  ⟨.ofUnit u, u.source.items⟩ :: blocksAll o (.ofUnit u) u.source.items

/-- The lists of items of a program. -/
def Program.blocks (p : Program) : List Block := p.files.flatMap (·.blocks p.options)

namespace Declarations

mutual

theorem scopes_ofItem_eq_map (o : Cfg.Options) (p : Place) (scope next : ScopeId) (i : Item) :
    (ofItem o p scope next i).scopes = (i.blocks o p).map Block.scope := by
  cases i with
  | inlineModule h items =>
    rw [scopes_ofItem_inlineModule, scopes_ofItems_eq_map, Syntax.Item.blocks, List.map_cons]
    rfl
  | enum e => exact scopes_ofEnum o p scope e
  | _ => rfl

theorem scopes_ofItems_eq_map (o : Cfg.Options) (p : Place) (scope next : ScopeId)
    (xs : List Item) : (ofItems o p scope next xs).scopes = (blocksAll o p xs).map Block.scope := by
  cases xs with
  | nil => rfl
  | cons i rest =>
    rw [ofItems_cons, scopes_append, scopes_ofItem_eq_map, scopes_ofItems_eq_map,
      Syntax.Item.blocksAll, List.map_append]

end

theorem scopes_ofUnit_eq_map (o : Cfg.Options) (next : ScopeId) (u : SourceUnit) :
    (ofUnit o next u).scopes = (u.blocks o).map Block.scope := by
  rw [ofUnit, scopes_append, scopes_ofItems_eq_map, SourceUnit.blocks, List.map_cons]
  rfl

theorem scopes_ofUnits_eq_map (o : Cfg.Options) (next : ScopeId) (us : List SourceUnit) :
    (ofUnits o next us).scopes = (us.flatMap (·.blocks o)).map Block.scope := by
  induction us generalizing next with
  | nil => rfl
  | cons u us ih =>
    rw [ofUnits, scopes_append, scopes_ofUnit_eq_map, ih, List.flatMap_cons, List.map_append]

theorem length_blocks (o : Cfg.Options) (p : Place) (i : Item) :
    (i.blocks o p).length = i.scopeCount := by
  rw [← length_scopes_ofItem o p 0 0, scopes_ofItem_eq_map, List.length_map]

/-! ## 2. Each list of items has its own candidates -/

theorem filter_eq_nil_of_scope_ne {cs : List Candidate} {id : ScopeId}
    (h : ∀ c ∈ cs, c.scope ≠ id) : cs.filter (·.scope == id) = [] :=
  List.filter_eq_nil_iff.mpr fun c hc heq => h c hc (beq_iff_eq.mp heq)

/-- No candidate of items has the number of a scope that is neither theirs nor among them. -/
theorem filter_ofItems_eq_nil {o : Cfg.Options} {p : Place} {scope next id : Nat}
    {xs : List Item} (hscope : id ≠ scope) (hnext : ∀ j < scopeCountAll xs, id ≠ next + j) :
    (ofItems o p scope next xs).candidates.filter (·.scope == id) = [] := by
  refine filter_eq_nil_of_scope_ne ?_
  rintro c hc rfl
  rcases scope_of_mem_ofItems hc with hc | ⟨j, hj, hc⟩
  · exact hscope hc
  · exact hnext j hj hc

theorem filter_ofItem_eq_nil {o : Cfg.Options} {p : Place} {scope next id : Nat} {i : Item}
    (hscope : id ≠ scope) (hnext : ∀ j < i.scopeCount, id ≠ next + j) :
    (ofItem o p scope next i).candidates.filter (·.scope == id) = [] := by
  refine filter_eq_nil_of_scope_ne ?_
  rintro c hc rfl
  rcases scope_of_mem_ofItem hc with hc | ⟨j, hj, hc⟩
  · exact hscope hc
  · exact hnext j hj hc

/-- Those with the number of the items themselves stand directly among them. -/
theorem filter_own_ofItems {o : Cfg.Options} {p : Place} {scope next : Nat} (h : scope < next)
    (xs : List Item) :
    (ofItems o p scope next xs).candidates.filter (·.scope == scope) =
      Block.candidates o scope ⟨p, xs⟩ := by
  induction xs generalizing next with
  | nil => rfl
  | cons i rest ih =>
    rw [ofItems_cons, candidates_append, List.filter_append, ih (Nat.lt_add_right _ h)]
    show _ = _ ++ Block.candidates o scope ⟨p, rest⟩
    congr 1
    cases i with
    | enum e =>
      refine List.filter_eq_self.mpr fun c hc => beq_iff_eq.mpr ?_
      rcases scope_of_mem_ofItem hc with hc | ⟨j, hj, -⟩
      · exact hc
      · exact absurd hj (Nat.not_lt_zero j)
    | inlineModule head items =>
      -- Within the module every number is a new one.
      rw [candidates_ofItem_inlineModule]
      exact filter_ofItems_eq_nil (Nat.ne_of_lt h) fun j _ => by omega
    | _ => rfl

mutual

theorem filter_ofItem {o : Cfg.Options} {p : Place} {scope next : Nat} {i : Item} {j : Nat}
    {b : Block} (hb : (i.blocks o p)[j]? = some b) :
    (ofItem o p scope next i).candidates.filter (·.scope == next + j) =
      b.candidates o (next + j) := by
  cases i with
  | inlineModule head items =>
    rw [candidates_ofItem_inlineModule]
    rw [Syntax.Item.blocks] at hb
    cases j with
    | zero =>
      obtain rfl := Option.some.inj hb
      exact filter_own_ofItems (Nat.lt_succ_self next) items
    | succ j =>
      rw [List.getElem?_cons_succ] at hb
      rw [← Nat.add_assoc, Nat.add_right_comm]
      exact filter_ofItems (Nat.lt_succ_self next) hb
  | _ => cases hb

/-- Those with the number of a list of items within are the candidates of that list. -/
theorem filter_ofItems {o : Cfg.Options} {p : Place} {scope next : Nat} {xs : List Item}
    {j : Nat} {b : Block} (h : scope < next) (hb : (blocksAll o p xs)[j]? = some b) :
    (ofItems o p scope next xs).candidates.filter (·.scope == next + j) =
      b.candidates o (next + j) := by
  cases xs with
  | nil => cases hb
  | cons i rest =>
    have hcount := length_blocks o p i
    rw [ofItems_cons, candidates_append, List.filter_append]
    rw [Syntax.Item.blocksAll] at hb
    by_cases hj : j < i.scopeCount
    · -- The list is within the first item, and the others bring later numbers.
      rw [List.getElem?_append_left (hcount ▸ hj)] at hb
      rw [filter_ofItem hb, filter_ofItems_eq_nil (by omega) (fun k _ => by omega),
        List.append_nil]
    · rw [List.getElem?_append_right (hcount ▸ Nat.le_of_not_lt hj), hcount] at hb
      have hnext : next + j = next + i.scopeCount + (j - i.scopeCount) := by omega
      rw [filter_ofItem_eq_nil (by omega) (fun k _ => by omega), List.nil_append, hnext]
      exact filter_ofItems (Nat.lt_add_right _ h) hb

end

theorem filter_ofUnit {o : Cfg.Options} {next : Nat} {u : SourceUnit} {j : Nat} {b : Block}
    (hb : (u.blocks o)[j]? = some b) :
    (ofUnit o next u).candidates.filter (·.scope == next + j) = b.candidates o (next + j) := by
  show (ofItems o (.ofUnit u) next (next + 1) u.source.items).candidates.filter _ = _
  cases j with
  | zero =>
    obtain rfl := Option.some.inj hb
    exact filter_own_ofItems (Nat.lt_succ_self next) _
  | succ j =>
    rw [SourceUnit.blocks, List.getElem?_cons_succ] at hb
    rw [← Nat.add_assoc, Nat.add_right_comm]
    exact filter_ofItems (Nat.lt_succ_self next) hb

theorem exists_number_of_mem_ofUnit {o : Cfg.Options} {next : Nat} {u : SourceUnit}
    {c : Candidate} (hc : c ∈ (ofUnit o next u).candidates) :
    ∃ j < (u.blocks o).length, c.scope = next + j := by
  obtain ⟨_, _, _, j, hj, hget⟩ := exists_site_of_mem_ofUnit hc
  rw [scopes_ofUnit_eq_map] at hget
  have hlt := (List.getElem?_eq_some_iff.mp hget).1
  rw [List.length_map] at hlt
  exact ⟨j, hlt, hj⟩

/-- The number of a candidate of files is the place of one of their lists of items. -/
theorem exists_number_of_mem_ofUnits {o : Cfg.Options} {next : Nat} {us : List SourceUnit}
    {c : Candidate} (hc : c ∈ (ofUnits o next us).candidates) :
    ∃ j < (us.flatMap (·.blocks o)).length, c.scope = next + j := by
  obtain ⟨_, _, _, _, _, j, hj, hget⟩ := exists_site_of_mem_ofUnits hc
  rw [scopes_ofUnits_eq_map] at hget
  have hlt := (List.getElem?_eq_some_iff.mp hget).1
  rw [List.length_map] at hlt
  exact ⟨j, hlt, hj⟩

/-- The candidates of files that have the number of a list of items are those that stand directly
in that list. -/
theorem filter_candidates_ofUnits {o : Cfg.Options} {next : Nat} {us : List SourceUnit}
    {j : Nat} {b : Block} (hb : (us.flatMap (·.blocks o))[j]? = some b) :
    (ofUnits o next us).candidates.filter (·.scope == next + j) = b.candidates o (next + j) := by
  -- File by file: the number lies in the range of one file, and the others have no candidate with
  -- it.
  induction us generalizing next j with
  | nil => cases hb
  | cons u us ih =>
    have hcount : (ofUnit o next u).scopes.length = (u.blocks o).length := by
      rw [scopes_ofUnit_eq_map, List.length_map]
    rw [ofUnits, candidates_append, List.filter_append, hcount]
    rw [List.flatMap_cons] at hb
    by_cases hj : j < (u.blocks o).length
    · rw [List.getElem?_append_left hj] at hb
      have hrest : (ofUnits o (next + (u.blocks o).length) us).candidates.filter
          (·.scope == next + j) = [] := by
        refine filter_eq_nil_of_scope_ne fun c hc heq => ?_
        obtain ⟨k, -, hk⟩ := exists_number_of_mem_ofUnits hc
        have hscope : next + j = next + (u.blocks o).length + k := heq.symm.trans hk
        omega
      rw [filter_ofUnit hb, hrest, List.append_nil]
    · rw [List.getElem?_append_right (Nat.le_of_not_lt hj)] at hb
      have hfirst : (ofUnit o next u).candidates.filter (·.scope == next + j) = [] := by
        refine filter_eq_nil_of_scope_ne fun c hc heq => ?_
        obtain ⟨k, hlt, hk⟩ := exists_number_of_mem_ofUnit hc
        have hscope : next + j = next + k := heq.symm.trans hk
        omega
      have hnext : next + j = next + (u.blocks o).length + (j - (u.blocks o).length) := by omega
      rw [hfirst, List.nil_append, hnext]
      exact ih hb

end Declarations

namespace Program

/-- The scopes of a program are its lists of items, in order. -/
theorem list_scopes (p : Program) : p.scopes.list = p.blocks.map Block.scope :=
  Declarations.scopes_ofUnits_eq_map p.options 0 p.files

/-- The candidates with the number of a list of items are those of that list. -/
theorem filter_candidates {p : Program} {id : ScopeId} {b : Block} (hb : p.blocks[id]? = some b) :
    p.declarations.candidates.filter (·.scope == id) = b.candidates p.options id := by
  have h : p.declarations.candidates.filter (·.scope == 0 + id) = b.candidates p.options (0 + id) :=
    Declarations.filter_candidates_ofUnits hb
  rwa [Nat.zero_add] at h

/-- The number of a candidate is that of the list of items that it stands in. -/
theorem exists_block_of_mem_candidates {p : Program} {c : Candidate}
    (hc : c ∈ p.declarations.candidates) :
    ∃ b, p.blocks[c.scope]? = some b ∧ .enum c.enum ∈ b.items ∧ c.module? = b.place.module? := by
  obtain ⟨j, hj, hscope⟩ := Declarations.exists_number_of_mem_ofUnits hc
  rw [Nat.zero_add] at hscope
  obtain ⟨b, hb⟩ : ∃ b, p.blocks[c.scope]? = some b :=
    ⟨_, List.getElem?_eq_getElem (hscope ▸ hj)⟩
  have hmem : c ∈ p.declarations.candidates.filter (·.scope == c.scope) :=
    List.mem_filter.mpr ⟨hc, beq_self_eq_true c.scope⟩
  rw [filter_candidates hb] at hmem
  obtain ⟨hitem, hmodule, -⟩ := Block.of_mem_candidates hmem
  exact ⟨_, hb, hitem, hmodule⟩

end Program

/-! ## 3. Resolution stays among the scopes -/

namespace Scopes

variable {ss : Scopes} {id : ScopeId}

/-- A number that some scope has. -/
def InRange (ss : Scopes) (id : ScopeId) : Prop := id < ss.list.length

theorem inRange_of_get? {s : Scope} (h : ss.get? id = some s) : ss.InRange id :=
  (List.getElem?_eq_some_iff.mp h).1

theorem exists_get? (h : ss.InRange id) : ∃ s, ss.get? id = some s :=
  ⟨_, List.getElem?_eq_getElem h⟩

theorem inRange_of_parentOf? {parent : ScopeId} (h : ss.parentOf? id = some parent) :
    ss.InRange parent := by
  obtain ⟨m, -, h⟩ := Option.bind_eq_some_iff.mp h
  obtain ⟨above, -, h⟩ := Option.bind_eq_some_iff.mp h
  exact (moduleOf?_of_idOf? h).1

theorem inRange_of_childOf? {child : ScopeId} {name : String}
    (h : ss.childOf? id name = some child) : ss.InRange child := by
  obtain ⟨m, -, h⟩ := Option.bind_eq_some_iff.mp h
  exact (moduleOf?_of_idOf? h).1

/-- A step of resolution goes from a number that a scope has to another one. -/
theorem Step.inRange {a b : ScopeId × List String} (h : ss.Step a b) (ha : ss.InRange a.1) :
    ss.InRange b.1 := by
  cases h with
  | root hroot => exact (moduleOf?_of_idOf? hroot).1
  | here => exact ha
  | parent hparent => exact inRange_of_parentOf? hparent
  | child _ _ hchild => exact inRange_of_childOf? hchild
  | follow _ _ => exact ha

/-- So do any number of steps. -/
theorem inRange_of_steps {a b : ScopeId × List String} (h : Relation.ReflTransGen ss.Step a b)
    (ha : ss.InRange a.1) : ss.InRange b.1 := by
  induction h with
  | refl => exact ha
  | tail _ hstep ih => exact hstep.inRange ih

/-- Resolution that takes its scope out of the list at each of its steps, and gives up if there is
none with the number. -/
def resolveWithin? (ss : Scopes) : Nat → ScopeId → List String → Option (List (List String))
  | 0, _, _ => some []
  | _, _, [] => some []
  | n + 1, id, first :: rest => do
    let scope ← ss.get? id
    let proceed (next : Option ScopeId) : Option (List (List String)) :=
      match next with
      | some id => resolveWithin? ss n id rest
      | none => some []
    let follow (path : List String) : Option (List (List String)) :=
      if isRelative path then resolveWithin? ss n id path else some [path]
    if first == "crate" then proceed (ss.idOf? .root)
    else if first == "self" then proceed (some id)
    else if first == "super" then
      proceed (scope.module?.bind (·.parent?) |>.bind ss.idOf?)
    else
      match scope.imports.target? first with
      | some target => follow (target ++ rest)
      | none =>
        match scope.module?.bind fun m => ss.idOf? (m.child first) with
        | some child => proceed (some child)
        | none =>
          let found ← scope.imports.globs.mapM fun g => follow (g ++ first :: rest)
          return found.flatten ++ [first :: rest]

/-- Where there is no scope with the number, there is nothing to go by. -/
theorem resolveWithin?_eq_none (h : ¬ss.InRange id) (n : Nat) (first : String)
    (rest : List String) : ss.resolveWithin? (n + 1) id (first :: rest) = none := by
  have hnone : ss.get? id = none := List.getElem?_eq_none (Nat.le_of_not_lt h)
  simp only [resolveWithin?, hnone]
  rfl

/-- From a number that a scope has, resolution comes to no other. -/
theorem resolveWithin?_eq_some (h : ss.InRange id) (n : Nat) (path : List String) :
    ss.resolveWithin? n id path = some (ss.resolveWithin n id path) := by
  induction n generalizing id path with
  | zero => simp only [resolveWithin?, resolveWithin]
  | succ n ih =>
    cases path with
    | nil => simp only [resolveWithin?, resolveWithin]
    | cons first rest =>
      obtain ⟨s, hs⟩ := exists_get? h
      have hmodule : ss.moduleOf? id = s.module? := by rw [moduleOf?, hs]; rfl
      have htarget : ss.targetOf? id first = s.imports.target? first := by
        rw [targetOf?, hs]
        rfl
      have hglobs : ss.globsOf id = s.imports.globs := by rw [globsOf, hs]; rfl
      have hfollow (next : List String) :
          (if isRelative next then ss.resolveWithin? n id next else some [next]) =
            some (if isRelative next then ss.resolveWithin n id next else [next]) := by
        split
        · exact ih h next
        · rfl
      have hparent : (s.module?.bind (·.parent?)).bind ss.idOf? = ss.parentOf? id := by
        rw [parentOf?, hmodule, Option.bind_assoc]
        rfl
      have hchild : (s.module?.bind fun m => ss.idOf? (m.child first)) = ss.childOf? id first := by
        rw [childOf?, hmodule]
        rfl
      simp only [resolveWithin?, resolveWithin, hs, hparent, hchild, htarget, hglobs, hfollow,
        Option.bind_eq_bind, Option.bind_some]
      split
      case isTrue =>
        cases hroot : ss.idOf? .root with
        | none => rfl
        | some root => exact ih (moduleOf?_of_idOf? hroot).1 rest
      split
      case isTrue => exact ih h rest
      split
      case isTrue =>
        cases hp : ss.parentOf? id with
        | none => rfl
        | some parent => exact ih (inRange_of_parentOf? hp) rest
      -- The name is an imported one, or that of a child module, or neither.
      cases s.imports.target? first with
      | some target => rfl
      | none =>
        cases hc : ss.childOf? id first with
        | some child => exact ih (inRange_of_childOf? hc) rest
        | none =>
          show (s.imports.globs.mapM fun g => pure _ : Option _).bind _ = _
          rw [List.mapM_pure]
          rfl

/-- The absolute paths that a path in a scope may stand for, unless a step comes to a number that no
scope has. -/
def resolve? (ss : Scopes) (id : ScopeId) (p : Syntax.Path) : Option (List (List String)) :=
  if p.leading then some [p.names] else ss.resolveWithin? maxSteps id p.names

theorem resolve?_eq_some (h : ss.InRange id) (p : Syntax.Path) :
    ss.resolve? id p = some (ss.resolve id p) := by
  unfold resolve? resolve
  split
  · rfl
  · exact resolveWithin?_eq_some h maxSteps p.names

end Scopes

/-! ## 4. Numbers of candidates -/

namespace Program

/-- Numbers of scopes are always good. A list of items has the number of a scope with its module and
its imports, and the candidates with that number are those that stand directly in it. Every
candidate has such a number. The number that is found for a module is that of a scope of the module.
From a candidate on, a path of any kind is resolved without coming to a number that no scope has, in
however many steps. -/
theorem scopeNumbers_valid (p : Program) :
    (∀ id b, p.blocks[id]? = some b →
      p.scopes.get? id = some ⟨b.place.module?, .ofItems b.items⟩ ∧
        p.declarations.candidates.filter (·.scope == id) = b.candidates p.options id) ∧
      (∀ c ∈ p.declarations.candidates, c.scope < p.scopes.list.length ∧
        ∃ b, p.blocks[c.scope]? = some b ∧ .enum c.enum ∈ b.items ∧
          p.scopes.get? c.scope = some ⟨c.module?, .ofItems b.items⟩) ∧
      (∀ m id, p.scopes.idOf? m = some id →
        id < p.scopes.list.length ∧ p.scopes.moduleOf? id = some m) ∧
      ∀ c ∈ p.declarations.candidates, ∀ path : Syntax.Path,
        p.scopes.resolve? c.scope path = some (p.scopes.resolve c.scope path) ∧
          ∀ a, Relation.ReflTransGen p.scopes.Step (c.scope, path.names) a →
            a.1 < p.scopes.list.length := by
  have hget : ∀ id b, p.blocks[id]? = some b → p.scopes.get? id = some b.scope := by
    intro id b hb
    rw [Scopes.get?, list_scopes, List.getElem?_map, hb, Option.map_some]
  have hscope : ∀ c ∈ p.declarations.candidates, ∃ b, p.blocks[c.scope]? = some b ∧
      .enum c.enum ∈ b.items ∧ p.scopes.get? c.scope = some ⟨c.module?, .ofItems b.items⟩ := by
    intro c hc
    obtain ⟨b, hb, hitem, hmodule⟩ := exists_block_of_mem_candidates hc
    exact ⟨b, hb, hitem, hmodule ▸ hget _ b hb⟩
  refine ⟨fun id b hb => ⟨hget id b hb, filter_candidates hb⟩, ?_,
    fun m id h => Scopes.moduleOf?_of_idOf? h, ?_⟩
  · intro c hc
    obtain ⟨b, hb, hitem, hs⟩ := hscope c hc
    exact ⟨Scopes.inRange_of_get? hs, b, hb, hitem, hs⟩
  · intro c hc path
    obtain ⟨b, -, -, hs⟩ := hscope c hc
    have hrange := Scopes.inRange_of_get? hs
    exact ⟨Scopes.resolve?_eq_some hrange path, fun a h => Scopes.inRange_of_steps h hrange⟩

/-- A crate of one file, in which a module has its attribute by way of the crate root:
`use a::b as t; mod m { use super::t; #[t] enum E {} }`. -/
def markedBelow : Program :=
  ⟨[⟨⟨"src/lib.rs"⟩, some .root, true,
    ⟨[], [.use ⟨[], .inherited, false, .path (.plain "a") (.rename (.plain "b") (.plain "t"))⟩,
      .inlineModule ⟨[], .inherited, false, .plain "m"⟩
        [.use ⟨[], .inherited, false, .path (.plain "super") (.name (.plain "t"))⟩,
          .enum ⟨[⟨false, .path (.ofIdent (.plain "t"))⟩], .inherited, .plain "E", .empty, .empty,
            [], false⟩]]⟩⟩], .none⟩

/-- There the enum has the number of the scope of its module, and its attribute is resolved. -/
theorem scopeNumbers_valid_markedBelow :
    ∃ c, markedBelow.declarations.candidates = [c] ∧ c.scope = 1 ∧
      markedBelow.scopes.moduleOf? c.scope = some ⟨["m"]⟩ ∧
      markedBelow.scopes.resolve? c.scope (.ofIdent (.plain "t")) = some [["a", "b"]] := by
  obtain ⟨-, hc, -, hresolve⟩ := scopeNumbers_valid markedBelow
  have hone : ∃ c, markedBelow.declarations.candidates = [c] ∧ c.scope = 1 ∧
      c.module? = some ⟨["m"]⟩ := ⟨_, rfl, rfl, rfl⟩
  obtain ⟨c, heq, hscope, hmodule⟩ := hone
  have hmem : c ∈ markedBelow.declarations.candidates := heq ▸ List.mem_singleton_self c
  obtain ⟨-, b, -, -, hget⟩ := hc c hmem
  refine ⟨c, heq, hscope, ?_, ?_⟩
  · rw [Scopes.moduleOf?, hget]
    exact hmodule
  · rw [(hresolve c hmem _).1, hscope]
    decide +kernel

end Program

end EnumCatalog
