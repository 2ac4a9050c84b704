import EnumCatalog.Scope

/-!
# How far resolution goes

Resolution goes on step by step, from a path written in one scope to a path written in another, and
ends at the absolute paths that the last scope has for it. This is a relation of its own
(`Scopes.Leads`), which knows no bound but counts the steps. Within `n` steps resolution finds
exactly what is led to in fewer than `n` steps (`mem_resolveWithin_iff`), so the bound hides nothing
that is near enough, and everything that is farther away.

How near is near enough can be said for a chain of imports by `crate`, each of them naming the next:
it costs two steps for each link, and one more for each module on the way to it
(`mem_resolve_iff`). So six links by way of modules of the root are too many, although they do not
run in a circle (`not_mem_resolve_sixLinks`).
-/

set_option autoImplicit false

namespace EnumCatalog

namespace Scopes

/-! ## 1. Steps -/

/-- The paths that a scope has for a path by its imports. A name that is neither imported nor a
module may be that of a crate. -/
inductive Expands (ss : Scopes) (id : ScopeId) : List String → List String → Prop where
  | binding {first : String} {rest target : List String} (hfirst : isRelative [first] = false)
      (htarget : ss.targetOf? id first = some target) :
      Expands ss id (first :: rest) (target ++ rest)
  | glob {first : String} {rest source : List String} (hfirst : isRelative [first] = false)
      (htarget : ss.targetOf? id first = none) (hchild : ss.childOf? id first = none)
      (hsource : source ∈ ss.globsOf id) : Expands ss id (first :: rest) (source ++ first :: rest)
  | name {first : String} {rest : List String} (hfirst : isRelative [first] = false)
      (htarget : ss.targetOf? id first = none) (hchild : ss.childOf? id first = none) :
      Expands ss id (first :: rest) (first :: rest)

/-- A path written in a scope means what another path means in its scope. -/
inductive Step (ss : Scopes) : ScopeId × List String → ScopeId × List String → Prop where
  | root {id root : ScopeId} {rest : List String} (hroot : ss.idOf? .root = some root) :
      Step ss (id, "crate" :: rest) (root, rest)
  | here {id : ScopeId} {rest : List String} : Step ss (id, "self" :: rest) (id, rest)
  | parent {id parent : ScopeId} {rest : List String} (hparent : ss.parentOf? id = some parent) :
      Step ss (id, "super" :: rest) (parent, rest)
  | child {id child : ScopeId} {first : String} {rest : List String}
      (hfirst : isRelative [first] = false) (htarget : ss.targetOf? id first = none)
      (hchild : ss.childOf? id first = some child) : Step ss (id, first :: rest) (child, rest)
  | follow {id : ScopeId} {path next : List String} (hnext : ss.Expands id path next)
      (hrelative : isRelative next = true) : Step ss (id, path) (id, next)

/-- A path written in a scope leads to an absolute path in a number of steps. -/
inductive Leads (ss : Scopes) : Nat → ScopeId × List String → List String → Prop where
  | ends {id : ScopeId} {path q : List String} (hq : ss.Expands id path q)
      (habsolute : isRelative q = false) : Leads ss 0 (id, path) q
  | step {a b : ScopeId × List String} {k : Nat} {q : List String} (hstep : ss.Step a b)
      (h : Leads ss k b q) : Leads ss (k + 1) a q

variable {ss : Scopes} {id : ScopeId} {path q : List String} {n k : Nat}

theorem isRelative_singleton_eq_false {first : String} :
    isRelative [first] = false ↔ first ≠ "crate" ∧ first ≠ "self" ∧ first ≠ "super" := by
  simp [isRelative]

@[simp]
theorem isRelative_cons (first : String) (rest : List String) :
    isRelative (first :: rest) = isRelative [first] := rfl

/-! ## 2. Resolution is the relation, cut off -/

theorem resolveWithin_root {root : ScopeId} (hroot : ss.idOf? .root = some root) (n : Nat)
    (rest : List String) :
    ss.resolveWithin (n + 1) id ("crate" :: rest) = ss.resolveWithin n root rest := by
  simp only [resolveWithin, hroot, BEq.rfl, if_true]

theorem resolveWithin_here (n : Nat) (rest : List String) :
    ss.resolveWithin (n + 1) id ("self" :: rest) = ss.resolveWithin n id rest := by
  simp [resolveWithin]

theorem resolveWithin_parent {parent : ScopeId} (hparent : ss.parentOf? id = some parent) (n : Nat)
    (rest : List String) :
    ss.resolveWithin (n + 1) id ("super" :: rest) = ss.resolveWithin n parent rest := by
  simp [resolveWithin, hparent]

theorem resolveWithin_binding {first : String} {target : List String}
    (hfirst : isRelative [first] = false) (htarget : ss.targetOf? id first = some target) (n : Nat)
    (rest : List String) :
    ss.resolveWithin (n + 1) id (first :: rest) =
      if isRelative (target ++ rest) then ss.resolveWithin n id (target ++ rest)
      else [target ++ rest] := by
  obtain ⟨hcrate, hself, hsuper⟩ := isRelative_singleton_eq_false.mp hfirst
  simp only [resolveWithin, htarget, beq_iff_eq, hcrate, hself, hsuper, if_false]

theorem resolveWithin_child {first : String} {child : ScopeId}
    (hfirst : isRelative [first] = false) (htarget : ss.targetOf? id first = none)
    (hchild : ss.childOf? id first = some child) (n : Nat) (rest : List String) :
    ss.resolveWithin (n + 1) id (first :: rest) = ss.resolveWithin n child rest := by
  obtain ⟨hcrate, hself, hsuper⟩ := isRelative_singleton_eq_false.mp hfirst
  simp only [resolveWithin, htarget, hchild, beq_iff_eq, hcrate, hself, hsuper, if_false]

theorem resolveWithin_name {first : String} (hfirst : isRelative [first] = false)
    (htarget : ss.targetOf? id first = none) (hchild : ss.childOf? id first = none) (n : Nat)
    (rest : List String) :
    ss.resolveWithin (n + 1) id (first :: rest) =
      ((ss.globsOf id).flatMap fun source =>
        if isRelative (source ++ first :: rest) then ss.resolveWithin n id (source ++ first :: rest)
        else [source ++ first :: rest]) ++ [first :: rest] := by
  obtain ⟨hcrate, hself, hsuper⟩ := isRelative_singleton_eq_false.mp hfirst
  simp only [resolveWithin, htarget, hchild, beq_iff_eq, hcrate, hself, hsuper, if_false]

/-- A step goes on within one step less. -/
theorem Step.mem_resolveWithin {a b : ScopeId × List String} (h : ss.Step a b)
    (hq : q ∈ ss.resolveWithin n b.1 b.2) : q ∈ ss.resolveWithin (n + 1) a.1 a.2 := by
  cases h with
  | root hroot =>
    rw [resolveWithin_root hroot]
    exact hq
  | here =>
    rw [resolveWithin_here]
    exact hq
  | parent hparent =>
    rw [resolveWithin_parent hparent]
    exact hq
  | child hfirst htarget hchild =>
    rw [resolveWithin_child hfirst htarget hchild]
    exact hq
  | follow hnext hrelative =>
    cases hnext with
    | binding hfirst htarget =>
      rw [resolveWithin_binding hfirst htarget, if_pos hrelative]
      exact hq
    | glob hfirst htarget hchild hsource =>
      rw [resolveWithin_name hfirst htarget hchild]
      refine List.mem_append_left _ (List.mem_flatMap.mpr ⟨_, hsource, ?_⟩)
      rw [if_pos hrelative]
      exact hq
    | name hfirst htarget hchild =>
      rw [isRelative_cons, hfirst] at hrelative
      cases hrelative

/-- What a scope has for a path is found at once, if it is absolute. -/
theorem Expands.mem_resolveWithin (h : ss.Expands id path q) (habsolute : isRelative q = false)
    (n : Nat) : q ∈ ss.resolveWithin (n + 1) id path := by
  cases h with
  | binding hfirst htarget =>
    rw [resolveWithin_binding hfirst htarget, if_neg (ne_true_of_eq_false habsolute)]
    exact List.mem_singleton_self _
  | glob hfirst htarget hchild hsource =>
    rw [resolveWithin_name hfirst htarget hchild]
    refine List.mem_append_left _ (List.mem_flatMap.mpr ⟨_, hsource, ?_⟩)
    rw [if_neg (ne_true_of_eq_false habsolute)]
    exact List.mem_singleton_self _
  | name hfirst htarget hchild =>
    rw [resolveWithin_name hfirst htarget hchild]
    exact List.mem_append_right _ (List.mem_singleton_self _)

/-- Whatever is found is had at once, or found behind a step. -/
theorem step_or_expands_of_mem_resolveWithin (h : q ∈ ss.resolveWithin (n + 1) id path) :
    (ss.Expands id path q ∧ isRelative q = false) ∨
      ∃ b, ss.Step (id, path) b ∧ q ∈ ss.resolveWithin n b.1 b.2 := by
  cases path with
  | nil =>
    rw [resolveWithin] at h
    · cases h
    · exact Nat.succ_ne_zero n
  | cons first rest =>
    have follow : ∀ next, ss.Expands id (first :: rest) next →
        q ∈ (if isRelative next then ss.resolveWithin n id next else [next]) →
        (ss.Expands id (first :: rest) q ∧ isRelative q = false) ∨
          ∃ b, ss.Step (id, first :: rest) b ∧ q ∈ ss.resolveWithin n b.1 b.2 := by
      intro next hnext hq
      split at hq
      case isTrue hrelative => exact .inr ⟨(id, next), .follow hnext hrelative, hq⟩
      case isFalse habsolute =>
        obtain rfl := List.mem_singleton.mp hq
        exact .inl ⟨hnext, eq_false_of_ne_true habsolute⟩
    -- The first name decides, in the order in which resolution asks.
    simp only [resolveWithin] at h
    split at h
    case isTrue hcrate =>
      obtain rfl := beq_iff_eq.mp hcrate
      split at h
      · next root hroot => exact .inr ⟨(root, rest), .root hroot, h⟩
      · cases h
    case isFalse hcrate =>
    split at h
    case isTrue hself =>
      obtain rfl := beq_iff_eq.mp hself
      exact .inr ⟨(id, rest), .here, h⟩
    case isFalse hself =>
    split at h
    case isTrue hsuper =>
      obtain rfl := beq_iff_eq.mp hsuper
      split at h
      · next parent hparent => exact .inr ⟨(parent, rest), .parent hparent, h⟩
      · cases h
    case isFalse hsuper =>
    have hfirst : isRelative [first] = false :=
      isRelative_singleton_eq_false.mpr ⟨by simpa using hcrate, by simpa using hself,
        by simpa using hsuper⟩
    split at h
    · next target htarget => exact follow _ (.binding hfirst htarget) h
    next htarget =>
    split at h
    · next child hchild => exact .inr ⟨(child, rest), .child hfirst htarget hchild, h⟩
    next hchild =>
    rcases List.mem_append.mp h with h | h
    · obtain ⟨source, hsource, h⟩ := List.mem_flatMap.mp h
      exact follow _ (.glob hfirst htarget hchild hsource) h
    · obtain rfl := List.mem_singleton.mp h
      exact .inl ⟨.name hfirst htarget hchild, hfirst⟩

/-- Within `n` steps exactly those paths are found that are led to in fewer than `n` steps. -/
theorem mem_resolveWithin_iff :
    q ∈ ss.resolveWithin n id path ↔ ∃ k < n, ss.Leads k (id, path) q := by
  constructor
  · intro h
    induction n generalizing id path with
    | zero =>
      rw [resolveWithin] at h
      cases h
    | succ n ih =>
      obtain ⟨hq, habsolute⟩ | ⟨b, hstep, h⟩ := step_or_expands_of_mem_resolveWithin h
      · exact ⟨0, Nat.succ_pos n, .ends hq habsolute⟩
      · obtain ⟨k, hk, hleads⟩ := ih h
        exact ⟨k + 1, Nat.succ_lt_succ hk, .step hstep hleads⟩
  · rintro ⟨k, hk, hleads⟩
    -- Induction on the derivation: each of its steps takes one from the bound.
    generalize ha : (id, path) = a at hleads
    induction hleads generalizing id path n with
    | ends hq habsolute =>
      cases ha
      obtain ⟨n, rfl⟩ := Nat.exists_eq_add_one_of_ne_zero (Nat.ne_of_gt hk)
      exact hq.mem_resolveWithin habsolute n
    | step hstep _ ih =>
      subst ha
      obtain ⟨n, rfl⟩ := Nat.exists_eq_add_one_of_ne_zero (Nat.ne_of_gt (Nat.zero_lt_of_lt hk))
      exact hstep.mem_resolveWithin (ih (Nat.lt_of_succ_lt_succ hk) rfl)

theorem resolveWithin_mono {m : Nat} (h : n ≤ m) :
    ss.resolveWithin n id path ⊆ ss.resolveWithin m id path := by
  intro q hq
  obtain ⟨k, hk, hleads⟩ := mem_resolveWithin_iff.mp hq
  exact mem_resolveWithin_iff.mpr ⟨k, Nat.lt_of_lt_of_le hk h, hleads⟩

/-! ## 3. Chains of imports -/

/-- The names of modules lead from a scope down to another one. -/
inductive Descends (ss : Scopes) : ScopeId → List String → ScopeId → Prop where
  | nil {id : ScopeId} : Descends ss id [] id
  | cons {id child last : ScopeId} {name : String} {names : List String}
      (hname : isRelative [name] = false) (htarget : ss.targetOf? id name = none)
      (hchild : ss.childOf? id name = some child) (h : Descends ss child names last) :
      Descends ss id (name :: names) last

/-- A name of a scope is imported from a crate by way of other modules, each of which has it from
the next by an import that starts at the crate root. -/
inductive Reexported (ss : Scopes) : Nat → ScopeId → String → List String → Prop where
  | absolute {id : ScopeId} {name : String} {target : List String}
      (hname : isRelative [name] = false) (htarget : ss.targetOf? id name = some target)
      (habsolute : isRelative target = false) : Reexported ss 0 id name target
  | link {id root next : ScopeId} {name nextName : String} {names q : List String} {k : Nat}
      (hname : isRelative [name] = false)
      (htarget : ss.targetOf? id name = some ("crate" :: names ++ [nextName]))
      (hroot : ss.idOf? .root = some root) (hnext : ss.Descends root names next)
      (h : Reexported ss k next nextName q) : Reexported ss (k + names.length + 2) id name q

/-- The names of modules are dropped one by one, each for a step. -/
theorem Descends.resolveWithin_eq {last : ScopeId} {names : List String}
    (h : ss.Descends id names last) (n : Nat) (rest : List String) :
    ss.resolveWithin n id (names ++ rest) = ss.resolveWithin (n - names.length) last rest := by
  induction h generalizing n with
  | nil => rfl
  | cons hname htarget hchild _ ih =>
    cases n with
    | zero => rw [resolveWithin, Nat.zero_sub, resolveWithin]
    | succ n =>
      rw [List.cons_append, resolveWithin_child hname htarget hchild, ih, List.length_cons,
        Nat.add_sub_add_right]

/-- A name that a chain brings into scope stands for one path, or for none if the chain is too
long. -/
theorem Reexported.resolveWithin_eq {name : String} (h : ss.Reexported k id name q) (n : Nat) :
    ss.resolveWithin n id [name] = if k < n then [q] else [] := by
  induction h generalizing n with
  | absolute hname htarget habsolute =>
    cases n with
    | zero => rw [resolveWithin, if_neg (Nat.lt_irrefl 0)]
    | succ n =>
      rw [resolveWithin_binding hname htarget, List.append_nil,
        if_neg (ne_true_of_eq_false habsolute), if_pos (Nat.succ_pos n)]
  | @link id root next name nextName names q k hname htarget hroot hnext _ ih =>
    have hrelative : isRelative ("crate" :: names ++ [nextName]) = true := rfl
    -- One step puts the import in the place of the name, and one more goes to the crate root.
    match n with
    | 0 => rw [resolveWithin, if_neg (Nat.not_lt_zero _)]
    | 1 =>
      rw [resolveWithin_binding hname htarget, List.append_nil, if_pos hrelative, resolveWithin,
        if_neg (by omega)]
    | n + 2 =>
      have hlt : k < n - names.length ↔ k + names.length + 2 < n + 2 := by omega
      calc ss.resolveWithin (n + 2) id [name]
          = ss.resolveWithin (n + 1) id ("crate" :: names ++ [nextName]) := by
            rw [resolveWithin_binding hname htarget, List.append_nil, if_pos hrelative]
        _ = ss.resolveWithin n root (names ++ [nextName]) := by
            rw [List.cons_append, resolveWithin_root hroot]
        _ = ss.resolveWithin (n - names.length) next [nextName] := hnext.resolveWithin_eq n _
        _ = if k + names.length + 2 < n + 2 then [q] else [] := by
            rw [ih]
            simp only [hlt]

/-! ## 4. The bound -/

/-- Without a bound a path is found if it is led to in any number of steps. With the bound it is
found if it is led to in at most 16. So a name that a chain of imports brings into scope is resolved
if and only if the chain takes at most 16 steps. -/
theorem mem_resolve_iff (ss : Scopes) (id : ScopeId) (p : Syntax.Path) (q : List String) :
    ((∃ n, q ∈ ss.resolveWithin n id p.names) ↔ ∃ k, ss.Leads k (id, p.names) q) ∧
      (q ∈ ss.resolve id p ↔
        if p.leading then q = p.names else ∃ k ≤ 16, ss.Leads k (id, p.names) q) ∧
      ∀ k name, p.leading = false → p.names = [name] → ss.Reexported k id name q →
        (q ∈ ss.resolve id p ↔ k ≤ 16) := by
  refine ⟨?_, ?_, ?_⟩
  · constructor
    · rintro ⟨n, hq⟩
      obtain ⟨k, -, hleads⟩ := mem_resolveWithin_iff.mp hq
      exact ⟨k, hleads⟩
    · rintro ⟨k, hleads⟩
      exact ⟨k + 1, mem_resolveWithin_iff.mpr ⟨k, Nat.lt_succ_self k, hleads⟩⟩
  · unfold resolve
    split
    · exact List.mem_singleton
    · rw [mem_resolveWithin_iff]
      simp only [maxSteps, Nat.lt_succ_iff]
  -- A chain is led to in its own number of steps and in no other.
  · intro k name hleading hname hchain
    rw [resolve, if_neg (ne_true_of_eq_false hleading), hname, hchain.resolveWithin_eq]
    by_cases hk : k < maxSteps
    · rw [if_pos hk]
      exact iff_of_true (List.mem_singleton_self q) (Nat.le_of_lt_succ hk)
    · rw [if_neg hk]
      exact iff_of_false List.not_mem_nil fun h => hk (Nat.lt_succ_of_le h)

/-- The scopes of a module and of others below the root, each of which has a name from the next by
an import, and the last one from a crate. -/
def links (m : ModulePath) : List String → List Scope
  | [] => [⟨some m, [.binding "b" ["a", "b"]]⟩]
  | next :: rest => ⟨some m, [.binding "b" ["crate", next, "b"]]⟩ :: links (.child .root next) rest

/-- A chain of five links, which takes 15 steps. -/
theorem mem_resolve_fiveLinks :
    let ss : Scopes := ⟨links .root ["m1", "m2", "m3", "m4", "m5"]⟩
    let p := Syntax.Path.ofIdent (.plain "b")
    p.leading = false ∧ p.names = ["b"] ∧ ss.Reexported 15 0 "b" ["a", "b"] ∧
      ["a", "b"] ∈ ss.resolve 0 p := by
  intro ss p
  have descends (i : ScopeId) (m : String) (htarget : ss.targetOf? 0 m = none)
      (hchild : ss.childOf? 0 m = some i) (hm : isRelative [m] = false) : ss.Descends 0 [m] i :=
    .cons hm htarget hchild .nil
  have h₅ : ss.Reexported 0 5 "b" ["a", "b"] := .absolute rfl rfl rfl
  have h₄ : ss.Reexported 3 4 "b" ["a", "b"] :=
    .link rfl rfl rfl (descends 5 "m5" rfl rfl rfl) h₅
  have h₃ : ss.Reexported 6 3 "b" ["a", "b"] :=
    .link rfl rfl rfl (descends 4 "m4" rfl rfl rfl) h₄
  have h₂ : ss.Reexported 9 2 "b" ["a", "b"] :=
    .link rfl rfl rfl (descends 3 "m3" rfl rfl rfl) h₃
  have h₁ : ss.Reexported 12 1 "b" ["a", "b"] :=
    .link rfl rfl rfl (descends 2 "m2" rfl rfl rfl) h₂
  have h₀ : ss.Reexported 15 0 "b" ["a", "b"] :=
    .link rfl rfl rfl (descends 1 "m1" rfl rfl rfl) h₁
  exact ⟨rfl, rfl, h₀, ((mem_resolve_iff ss 0 p _).2.2 15 "b" rfl rfl h₀).mpr (by decide)⟩

/-- A chain of six links does not run in a circle, and without the bound the name at its start has
a meaning. With the bound it has none. -/
theorem not_mem_resolve_sixLinks :
    let ss : Scopes := ⟨links .root ["m1", "m2", "m3", "m4", "m5", "m6"]⟩
    let p := Syntax.Path.ofIdent (.plain "b")
    ["a", "b"] ∈ ss.resolveWithin 19 0 p.names ∧ ["a", "b"] ∉ ss.resolve 0 p := by
  decide +kernel

end Scopes

end EnumCatalog
