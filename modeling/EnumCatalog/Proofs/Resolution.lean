import EnumCatalog.Proofs.Extraction
import EnumCatalog.Proofs.Insertion

/-!
# Where resolution looks

Resolving a path asks four things of a scope: its module, what a name is bound to, from which paths
everything is taken, and which scope is the first of a module. Two lists of scopes that answer
alike, up to the numbers of the scopes, resolve every path alike (`Scopes.Alike.resolve_eq`). The
numbers are no part of what a candidate comes to, so it is described alike as well
(`Candidate.Twin.describe_eq`), and programs whose live candidates are twins one by one have the
same descriptors.

What makes lists of scopes alike is that scopes which are put in are not found, because an earlier
scope is found in their place (`Scopes.alike_insert`).
-/

set_option autoImplicit false

namespace EnumCatalog

namespace Scopes

/-- Scopes answer alike along a relation of their numbers. -/
structure Alike (R : ScopeId → ScopeId → Prop) (ss ss' : Scopes) : Prop where
  moduleOf? : ∀ i j, R i j → ss.moduleOf? i = ss'.moduleOf? j
  targetOf? : ∀ i j, R i j → ∀ name, ss.targetOf? i name = ss'.targetOf? j name
  globsOf : ∀ i j, R i j → ss.globsOf i = ss'.globsOf j
  idOf? : ∀ m, Option.Rel R (ss.idOf? m) (ss'.idOf? m)

variable {R : ScopeId → ScopeId → Prop} {ss ss' : Scopes}

theorem Alike.parentOf? (h : Alike R ss ss') {i j : ScopeId} (hij : R i j) :
    Option.Rel R (ss.parentOf? i) (ss'.parentOf? j) := by
  unfold Scopes.parentOf?
  rw [h.moduleOf? i j hij]
  cases ss'.moduleOf? j with
  | none => exact Option.Rel.none
  | some m =>
    show Option.Rel R (m.parent?.bind ss.idOf?) (m.parent?.bind ss'.idOf?)
    cases m.parent? with
    | none => exact Option.Rel.none
    | some parent => exact h.idOf? parent

theorem Alike.childOf? (h : Alike R ss ss') {i j : ScopeId} (hij : R i j) (name : String) :
    Option.Rel R (ss.childOf? i name) (ss'.childOf? j name) := by
  unfold Scopes.childOf?
  rw [h.moduleOf? i j hij]
  cases ss'.moduleOf? j with
  | none => exact Option.Rel.none
  | some m => exact h.idOf? (m.child name)

theorem parentOf?_congr {i : ScopeId} (hmodule : ss.moduleOf? i = ss'.moduleOf? i)
    (hid : ∀ m, ss.idOf? m = ss'.idOf? m) : ss.parentOf? i = ss'.parentOf? i := by
  rw [Scopes.parentOf?, Scopes.parentOf?, hmodule]
  simp only [hid]

theorem childOf?_congr {i : ScopeId} (hmodule : ss.moduleOf? i = ss'.moduleOf? i)
    (hid : ∀ m, ss.idOf? m = ss'.idOf? m) (name : String) :
    ss.childOf? i name = ss'.childOf? i name := by
  rw [Scopes.childOf?, Scopes.childOf?, hmodule]
  simp only [hid]

/-- Alike scopes resolve alike, step by step. -/
theorem Alike.resolveWithin_eq (h : Alike R ss ss') (n : Nat) {i j : ScopeId} (hij : R i j)
    (path : List String) : ss.resolveWithin n i path = ss'.resolveWithin n j path := by
  -- By the bound: whatever a step asks of the scopes, both lists answer it alike.
  induction n generalizing i j path with
  | zero => rw [resolveWithin, resolveWithin]
  | succ n ih =>
    cases path with
    | nil => rw [resolveWithin, resolveWithin]; all_goals exact Nat.succ_ne_zero n
    | cons first rest =>
      have follow : ∀ p : List String,
          (if isRelative p then resolveWithin ss n i p else [p]) =
            if isRelative p then resolveWithin ss' n j p else [p] := by
        intro p
        rw [ih hij p]
      simp only [resolveWithin, h.targetOf? i j hij first, h.globsOf i j hij, follow]
      split
      · have hroot := h.idOf? .root
        generalize ss.idOf? .root = a, ss'.idOf? .root = b at hroot
        cases hroot with
        | some hr => exact ih hr rest
        | none => rfl
      split
      · exact ih hij rest
      split
      · have hparent := h.parentOf? hij
        generalize ss.parentOf? i = a, ss'.parentOf? j = b at hparent
        cases hparent with
        | some hr => exact ih hr rest
        | none => rfl
      cases ss'.targetOf? j first with
      | some target => rfl
      | none =>
        have hchild := h.childOf? hij first
        generalize ss.childOf? i first = a, ss'.childOf? j first = b at hchild
        cases hchild with
        | some hr => exact ih hr rest
        | none => rfl

theorem Alike.resolve_eq (h : Alike R ss ss') {i j : ScopeId} (hij : R i j) (p : Syntax.Path) :
    ss.resolve i p = ss'.resolve j p := by
  unfold resolve
  rw [h.resolveWithin_eq maxSteps hij]

end Scopes

namespace Candidate

/-- Candidates that differ in nothing but the file and the number of their scope. -/
structure Twin (R : ScopeId → ScopeId → Prop) (c c' : Candidate) : Prop where
  module? : c.module? = c'.module?
  enum : c.enum = c'.enum
  visible : c.visible = c'.visible
  enabled : c.enabled = c'.enabled
  scope : R c.scope c'.scope

variable {R : ScopeId → ScopeId → Prop} {ss ss' : Scopes} {c c' : Candidate}

theorem twin_renumber (c : Candidate) (f : ScopeId → ScopeId) :
    Twin (fun i j => j = f i) c (c.renumber f) :=
  ⟨rfl, rfl, rfl, rfl, rfl⟩

theorem Twin.markers_eq (h : Twin R c c') (hss : ss.Alike R ss') (m : Marker) :
    c.markers ss m = c'.markers ss' m := by
  unfold markers
  rw [h.enum]
  congr 1
  funext a
  rw [isMarker, isMarker, hss.resolve_eq h.scope]

theorem Twin.describe_eq (h : Twin R c c') (hss : ss.Alike R ss') (m : Marker)
    (crateName : String) : c.describe ss m crateName = c'.describe ss' m crateName := by
  have hname : c.name = c'.name := congrArg (·.ident.name) h.enum
  have hq : c.qualifiedName crateName = c'.qualifiedName crateName := by
    rw [qualifiedName, qualifiedName, h.module?, h.enum, h.enabled, h.visible, hname]
  unfold describe Extraction.examine
  rw [hq, h.markers_eq hss]
  cases c'.qualifiedName crateName with
  | error reason => rfl
  | ok name => cases c'.markers ss' m <;> rfl

end Candidate

theorem Candidate.filterMap_describe_eq {R : ScopeId → ScopeId → Prop} {ss ss' : Scopes}
    {cs cs' : List Candidate} (hss : ss.Alike R ss') (h : List.Forall₂ (Twin R) cs cs')
    (m : Marker) (crateName : String) :
    cs.filterMap (·.describe ss m crateName) = cs'.filterMap (·.describe ss' m crateName) := by
  induction h with
  | nil => rfl
  | cons htwin _ ih => rw [List.filterMap_cons, List.filterMap_cons, htwin.describe_eq hss, ih]

/-! ## Scopes that are not found -/

/-- What is put in behind something of its kind is not found first. -/
theorem findIdx?_insert {α : Type} {p : α → Bool} {as xs : List α} (bs : List α)
    (h : ∀ x ∈ xs, p x = true → ∃ a ∈ as, p a = true) :
    (as ++ xs ++ bs).findIdx? p =
      ((as ++ bs).findIdx? p).map (shiftFrom as.length xs.length) := by
  rw [List.append_assoc, List.findIdx?_append, List.findIdx?_append, List.findIdx?_append]
  -- What is found in front stays where it is. Otherwise nothing of the kind was put in either.
  cases ha : as.findIdx? p with
  | some i =>
    have hi : i < as.length := (List.findIdx?_eq_some_iff_getElem.mp ha).1
    rw [Option.some_or, Option.some_or, Option.map_some, shiftFrom_of_lt hi]
  | none =>
    have hxs : xs.findIdx? p = none := by
      rw [List.findIdx?_eq_none_iff]
      intro x hx
      rw [Bool.eq_false_iff]
      intro hpx
      obtain ⟨a, hmem, hpa⟩ := h x hx hpx
      rw [List.findIdx?_eq_none_iff.mp ha a hmem] at hpa
      cases hpa
    rw [hxs, Option.none_or, Option.none_or, Option.none_or, Option.map_map, Option.map_map]
    cases bs.findIdx? p with
    | none => rfl
    | some i =>
      have hle : as.length ≤ i + as.length := Nat.le_add_left _ _
      simp only [Option.map_some, Function.comp_apply, shiftFrom_of_le hle, Option.some.injEq]
      omega

namespace Scopes

/-- Scopes that are put in are not found if each of them stands behind one of the same module. -/
theorem alike_insert {as xs : List Scope} (bs : List Scope)
    (h : ∀ x ∈ xs, ∀ m, x.module? = some m → ∃ a ∈ as, a.module? = some m) :
    Alike (fun i j => j = shiftFrom as.length xs.length i) ⟨as ++ bs⟩ ⟨as ++ xs ++ bs⟩ := by
  have hget : ∀ i, get? ⟨as ++ xs ++ bs⟩ (shiftFrom as.length xs.length i) = get? ⟨as ++ bs⟩ i :=
    getElem?_shiftFrom as xs bs
  constructor
  · rintro i _ rfl
    rw [moduleOf?, moduleOf?, hget]
  · rintro i _ rfl name
    rw [targetOf?, targetOf?, hget]
  · rintro i _ rfl
    rw [globsOf, globsOf, hget]
  · intro m
    show Option.Rel _ ((as ++ bs).findIdx? _) ((as ++ xs ++ bs).findIdx? _)
    rw [findIdx?_insert bs (fun x hx hm => ?_)]
    · cases (as ++ bs).findIdx? fun s => s.module? == some m with
      | none => exact Option.Rel.none
      | some i => exact Option.Rel.some rfl
    · obtain ⟨a, ha, hmod⟩ := h x hx m (by simpa using hm)
      exact ⟨a, ha, by simpa using hmod⟩

end Scopes

/-- Imports by which names stand for the same, and which take everything from the same paths. -/
def Imports.Equiv (is js : Imports) : Prop :=
  (∀ name, is.target? name = js.target? name) ∧ is.globs = js.globs

theorem Imports.Equiv.refl (is : Imports) : is.Equiv is := ⟨fun _ => rfl, rfl⟩

namespace Scopes

/-- Lists of scopes that differ in one of them have the same scope at any other number. -/
theorem get?_eq_or (as bs : List Scope) (s s' : Scope) (i : ScopeId) :
    get? ⟨as ++ s :: bs⟩ i = get? ⟨as ++ s' :: bs⟩ i ∨
      i = as.length ∧ get? ⟨as ++ s :: bs⟩ i = some s ∧ get? ⟨as ++ s' :: bs⟩ i = some s' := by
  rcases Nat.lt_trichotomy i as.length with hi | hi | hi
  · left
    rw [get?, get?, List.getElem?_append_left hi, List.getElem?_append_left hi]
  · right
    rw [hi]
    simp [get?]
  · left
    obtain ⟨k, rfl⟩ := Nat.exists_eq_add_of_lt hi
    rw [get?, get?, Nat.add_assoc, List.getElem?_append_right (Nat.le_add_right _ _),
      List.getElem?_append_right (Nat.le_add_right _ _), Nat.add_sub_cancel_left,
      List.getElem?_cons_succ, List.getElem?_cons_succ]

theorem idOf?_eq (as bs : List Scope) (module? : Option ModulePath) (is js : Imports)
    (m : ModulePath) :
    idOf? ⟨as ++ ⟨module?, is⟩ :: bs⟩ m = idOf? ⟨as ++ ⟨module?, js⟩ :: bs⟩ m := by
  simp [idOf?, List.findIdx?_append, List.findIdx?_cons]

/-- One scope may change its imports for equivalent ones. -/
theorem alike_of_equiv {as bs : List Scope} {module? : Option ModulePath}
    {is js : Imports} (h : is.Equiv js) :
    Alike (fun i j => j = i) ⟨as ++ ⟨module?, is⟩ :: bs⟩ ⟨as ++ ⟨module?, js⟩ :: bs⟩ := by
  have hget := get?_eq_or as bs ⟨module?, is⟩ ⟨module?, js⟩
  -- Only the scope that is changed answers by other imports.
  constructor
  · rintro _ i rfl
    rcases hget i with hi | ⟨-, h₁, h₂⟩
    · rw [moduleOf?, moduleOf?, hi]
    · rw [moduleOf?, moduleOf?, h₁, h₂]
      rfl
  · rintro _ i rfl name
    rcases hget i with hi | ⟨-, h₁, h₂⟩
    · rw [targetOf?, targetOf?, hi]
    · rw [targetOf?, targetOf?, h₁, h₂]
      exact h.1 name
  · rintro _ i rfl
    rcases hget i with hi | ⟨-, h₁, h₂⟩
    · rw [globsOf, globsOf, hi]
    · rw [globsOf, globsOf, h₁, h₂]
      exact h.2
  · intro m
    rw [idOf?_eq as bs module? is js m]
    cases idOf? ⟨as ++ ⟨module?, js⟩ :: bs⟩ m with
    | none => exact Option.Rel.none
    | some i => exact Option.Rel.some rfl

end Scopes

end EnumCatalog
