import EnumCatalog.Proofs.Deletion
import EnumCatalog.Proofs.Relocation
import EnumCatalog.Proofs.Steps

/-!
# Excerpts

An excerpt of a program is a run of its files, taken for a program of its own (`Excerpt`). The
candidates are then those that the files have in the whole program, except that the whole program
may have had one of the same key before. But three things are taken from all files of a program and
not from the file of a candidate: whether the marker's crate is mentioned at all, which candidate is
the first of its key, and what the names of its attributes stand for. So what is found in the
excerpt is what is found in its files when the whole program is gone through, if these three come to
the same for each candidate, and only then (`Excerpt.found_eq_iff`).

They do if the files do not look outside (`Excerpt.SelfContained`): no path that resolution comes to
leads into a module of other files (`Scopes.LooksUp`).
-/

set_option autoImplicit false

namespace EnumCatalog

/-! ## 1. Which modules are looked up -/

theorem exists_of_rel {α β : Type} {R : α → β → Prop} {a : Option α} {b : Option β}
    (h : Option.Rel R a b) :
    (∃ x y, a = some x ∧ b = some y ∧ R x y) ∨ (a = none ∧ b = none) := by
  cases h with
  | some hxy => exact .inl ⟨_, _, rfl, rfl, hxy⟩
  | none => exact .inr ⟨rfl, rfl⟩

namespace Scopes

/-- From a path in a scope, resolution comes to look up a module. -/
inductive LooksUp (ss : Scopes) : ScopeId × List String → ModulePath → Prop where
  | root {id : ScopeId} {rest : List String} : LooksUp ss (id, "crate" :: rest) .root
  | parent {id : ScopeId} {rest : List String} {own parent : ModulePath}
      (hown : ss.moduleOf? id = some own) (hparent : own.parent? = some parent) :
      LooksUp ss (id, "super" :: rest) parent
  | child {id : ScopeId} {first : String} {rest : List String} {own : ModulePath}
      (hfirst : isRelative [first] = false) (htarget : ss.targetOf? id first = none)
      (hown : ss.moduleOf? id = some own) : LooksUp ss (id, first :: rest) (own.child first)
  | step {a b : ScopeId × List String} {m : ModulePath} (hstep : ss.Step a b)
      (h : LooksUp ss b m) : LooksUp ss a m

variable {R : ScopeId → ScopeId → Prop} {ss ss' : Scopes} {i j : ScopeId} {first : String}
  {rest : List String} {m : ModulePath}

theorem Step.exists_of_super {b : ScopeId × List String} (h : ss.Step (i, "super" :: rest) b) :
    ∃ parent, ss.parentOf? i = some parent ∧ b = (parent, rest) := by
  generalize ha : (i, "super" :: rest) = a at h
  cases h with
  | parent hparent =>
    obtain ⟨rfl, hpath⟩ := Prod.mk.inj ha
    obtain ⟨-, rfl⟩ := List.cons.inj hpath
    exact ⟨_, hparent, rfl⟩
  | root => simp at ha
  | here => simp at ha
  | child hfirst =>
    obtain ⟨-, hpath⟩ := Prod.mk.inj ha
    obtain ⟨rfl, -⟩ := List.cons.inj hpath
    cases hfirst
  | follow hnext =>
    obtain ⟨-, rfl⟩ := Prod.mk.inj ha
    cases hnext with
    | binding hfirst => cases hfirst
    | glob hfirst => cases hfirst
    | name hfirst => cases hfirst

/-- From `super`, the module around is looked up, and then what follows from there. -/
theorem LooksUp.of_super (h : ss.LooksUp (i, "super" :: rest) m) :
    (ss.moduleOf? i).bind ModulePath.parent? = some m ∨
      ∃ parent, ss.parentOf? i = some parent ∧ ss.LooksUp (parent, rest) m := by
  generalize ha : (i, "super" :: rest) = a at h
  cases h with
  | root => simp at ha
  | parent hown hparent =>
    obtain ⟨rfl, -⟩ := Prod.mk.inj ha
    exact .inl (Option.bind_eq_some_iff.mpr ⟨_, hown, hparent⟩)
  | child hfirst =>
    obtain ⟨-, hpath⟩ := Prod.mk.inj ha
    obtain ⟨rfl, -⟩ := List.cons.inj hpath
    cases hfirst
  | step hstep h =>
    rw [← ha] at hstep
    obtain ⟨parent, hparent, rfl⟩ := hstep.exists_of_super
    exact .inr ⟨parent, hparent, h⟩

/-- From a name that is imported from a crate, nothing is looked up. -/
theorem not_looksUp_of_binding {target : List String} (hfirst : isRelative [first] = false)
    (htarget : ss.targetOf? i first = some target) (habsolute : isRelative (target ++ rest) = false) :
    ¬ ss.LooksUp (i, first :: rest) m := by
  obtain ⟨hcrate, hself, hsuper⟩ := isRelative_singleton_eq_false.mp hfirst
  have hbound : ss.targetOf? i first ≠ none := by simp [htarget]
  intro h
  -- A look-up from here would be by a word for a module, by a module's name or along the import.
  cases h with
  | root => exact hcrate rfl
  | parent => exact hsuper rfl
  | child _ hnone => exact hbound hnone
  | step hstep =>
    cases hstep with
    | root => exact hcrate rfl
    | here => exact hself rfl
    | parent => exact hsuper rfl
    | child _ hnone => exact hbound hnone
    | follow hnext hrelative =>
      cases hnext with
      | binding _ hbound =>
        obtain rfl := Option.some.inj (htarget.symm.trans hbound)
        rw [habsolute] at hrelative
        cases hrelative
      | glob _ hnone => exact hbound hnone
      | name _ hnone => exact hbound hnone

theorem rel_parentOf? (hget : ss.get? i = ss'.get? j)
    (hid : ∀ m, ss.LooksUp (i, "super" :: rest) m → Option.Rel R (ss.idOf? m) (ss'.idOf? m)) :
    Option.Rel R (ss.parentOf? i) (ss'.parentOf? j) := by
  have hmodule : ss.moduleOf? i = ss'.moduleOf? j := by rw [moduleOf?, moduleOf?, hget]
  unfold parentOf?
  rw [← hmodule]
  cases hown : ss.moduleOf? i with
  | none => exact Option.Rel.none
  | some own =>
    show Option.Rel R (own.parent?.bind ss.idOf?) (own.parent?.bind ss'.idOf?)
    cases hparent : own.parent? with
    | none => exact Option.Rel.none
    | some parent => exact hid parent (.parent hown hparent)

theorem rel_childOf? (hget : ss.get? i = ss'.get? j) (hfirst : isRelative [first] = false)
    (htarget : ss.targetOf? i first = none)
    (hid : ∀ m, ss.LooksUp (i, first :: rest) m → Option.Rel R (ss.idOf? m) (ss'.idOf? m)) :
    Option.Rel R (ss.childOf? i first) (ss'.childOf? j first) := by
  have hmodule : ss.moduleOf? i = ss'.moduleOf? j := by rw [moduleOf?, moduleOf?, hget]
  unfold childOf?
  rw [← hmodule]
  cases hown : ss.moduleOf? i with
  | none => exact Option.Rel.none
  | some own => exact hid (own.child first) (.child hfirst htarget hown)

/-- Scopes with the same imports resolve a path alike if they have the same scopes for the modules
that are looked up on the way. -/
theorem resolveWithin_eq_of_looksUp (hget : ∀ i j, R i j → ss.get? i = ss'.get? j) (n : Nat)
    {i j : ScopeId} (hij : R i j) {path : List String}
    (hid : ∀ m, ss.LooksUp (i, path) m → Option.Rel R (ss.idOf? m) (ss'.idOf? m)) :
    ss.resolveWithin n i path = ss'.resolveWithin n j path := by
  induction n generalizing i j path with
  | zero => rw [resolveWithin, resolveWithin]
  | succ n ih =>
    cases path with
    | nil => rw [resolveWithin, resolveWithin]; all_goals exact Nat.succ_ne_zero n
    | cons first rest =>
      have htarget : ss.targetOf? i first = ss'.targetOf? j first := by
        rw [targetOf?, targetOf?, hget i j hij]
      have hglobs : ss.globsOf i = ss'.globsOf j := by rw [globsOf, globsOf, hget i j hij]
      -- Where a path goes on to is a step, so what is looked up from there is looked up from here.
      have proceed {i' j' : ScopeId} (hij' : R i' j') {next : List String}
          (hstep : ss.Step (i, first :: rest) (i', next)) :
          ss.resolveWithin n i' next = ss'.resolveWithin n j' next :=
        ih hij' fun m hm => hid m (.step hstep hm)
      have follow {next : List String} (hnext : ss.Expands i (first :: rest) next) :
          (if isRelative next then ss.resolveWithin n i next else [next]) =
            if isRelative next then ss'.resolveWithin n j next else [next] := by
        split
        case isTrue hrelative => exact proceed hij (.follow hnext hrelative)
        case isFalse => rfl
      simp only [resolveWithin, ← htarget, ← hglobs]
      split
      case isTrue hcrate =>
        obtain rfl := beq_iff_eq.mp hcrate
        obtain ⟨root, root', hroot, hroot', hrel⟩ | ⟨hroot, hroot'⟩ :=
          exists_of_rel (hid .root .root)
        · rw [hroot, hroot']
          exact proceed hrel (.root hroot)
        · rw [hroot, hroot']
      case isFalse hcrate =>
      split
      case isTrue hself =>
        obtain rfl := beq_iff_eq.mp hself
        exact proceed hij .here
      case isFalse hself =>
      split
      case isTrue hsuper =>
        obtain rfl := beq_iff_eq.mp hsuper
        obtain ⟨parent, parent', hparent, hparent', hrel⟩ | ⟨hparent, hparent'⟩ :=
          exists_of_rel (rel_parentOf? (hget i j hij) hid)
        · rw [hparent, hparent']
          exact proceed hrel (.parent hparent)
        · rw [hparent, hparent']
      case isFalse hsuper =>
      have hfirst : isRelative [first] = false :=
        isRelative_singleton_eq_false.mpr ⟨by simpa using hcrate, by simpa using hself,
          by simpa using hsuper⟩
      cases hbound : ss.targetOf? i first with
      | some target => exact follow (.binding hfirst hbound)
      | none =>
        obtain ⟨child, child', hchild, hchild', hrel⟩ | ⟨hchild, hchild'⟩ :=
          exists_of_rel (rel_childOf? (hget i j hij) hfirst hbound hid)
        · rw [hchild, hchild']
          exact proceed hrel (.child hfirst hbound hchild)
        · rw [hchild, hchild']
          refine congrArg (· ++ _) (List.flatMap_congr fun source hsource => ?_)
          exact follow (.glob hfirst hbound hchild hsource)

theorem resolve_eq_of_looksUp (hget : ∀ i j, R i j → ss.get? i = ss'.get? j) {i j : ScopeId}
    (hij : R i j) {p : Syntax.Path} (hid : p.leading = false → ∀ m, ss.LooksUp (i, p.names) m →
      Option.Rel R (ss.idOf? m) (ss'.idOf? m)) : ss.resolve i p = ss'.resolve j p := by
  unfold resolve
  split
  case isTrue => rfl
  case isFalse hleading =>
    exact resolveWithin_eq_of_looksUp hget maxSteps hij (hid (eq_false_of_ne_true hleading))

end Scopes

/-! ## 2. What is found, and for which candidate -/

/-- Of what is found for candidates that satisfy a condition, the descriptors are those of these
candidates. -/
theorem map_snd_filter_pairs {α β : Type} (f : α → Option β) (p : α → Bool) (l : List α) :
    ((l.filterMap fun a => (f a).map (a, ·)).filter (p ·.1)).map (·.2) =
      (l.filter p).filterMap f := by
  induction l with
  | nil => rfl
  | cons a l ih =>
    cases hf : f a <;> cases hp : p a <;> simp [hf, hp, ih]

namespace Program

/-- A file of the program is the module, or has it in braces. -/
def Declares (p : Program) (m : ModulePath) : Prop := ∃ s ∈ p.scopes.list, s.module? = some m

instance (p : Program) (m : ModulePath) : Decidable (p.Declares m) :=
  inferInstanceAs (Decidable (∃ s ∈ p.scopes.list, _))

/-- What is found in a program: the descriptors, each with the candidate that it describes. -/
def found (p : Program) (m : Marker) (crateName : String) : List (Candidate × Descriptor) :=
  if p.mentions m.crateName then
    p.liveCandidates.filterMap fun c => (c.describe p.scopes m crateName).map (c, ·)
  else []

theorem map_snd_found (p : Program) (m : Marker) (crateName : String) :
    (p.found m crateName).map (·.2) = (p.extract m crateName .never).descriptors := by
  unfold found
  split
  case isTrue hm =>
    have h := map_snd_filter_pairs (·.describe p.scopes m crateName) (fun _ => true)
      p.liveCandidates
    rw [List.filter_true, List.filter_true] at h
    rw [descriptors_extract hm, h]
  case isFalse hm =>
    rw [descriptors_extract_of_not_mentions (eq_false_of_ne_true hm)]
    rfl

end Program

namespace Candidate

/-- Of the candidates that are kept, those go whose keys have been seen before. -/
theorem dedupAgainst_eq_filter (seen : List Key) (cs : List Candidate) :
    dedupAgainst seen cs = (dedup cs).filter (·.key ∉ seen) := by
  -- The keys that are met on the way come to those seen before, so the induction is over both.
  suffices h : ∀ seen', dedupAgainst (seen ++ seen') cs =
      (dedupAgainst seen' cs).filter (·.key ∉ seen) by
    have h := h []
    rwa [List.append_nil] at h
  induction cs with
  | nil => exact fun _ => rfl
  | cons c cs ih =>
    intro seen'
    by_cases hc' : c.key ∈ seen'
    · rw [dedupAgainst_cons_of_mem hc', dedupAgainst_cons_of_mem (List.mem_append_right seen hc'),
        ih]
    · rw [dedupAgainst_cons_of_not_mem hc', List.filter_cons]
      by_cases hc : c.key ∈ seen
      · rw [dedupAgainst_cons_of_mem (List.mem_append_left seen' hc), if_neg (by simpa using hc),
          ← ih]
        refine dedupAgainst_congr fun a _ => ?_
        rw [List.mem_append, List.mem_append, List.mem_cons]
        constructor
        · exact Or.imp_right Or.inr
        · rintro (h | h | h)
          · exact Or.inl h
          · exact Or.inl (h ▸ hc)
          · exact Or.inr h
      · rw [dedupAgainst_cons_of_not_mem (by simp [hc, hc']), if_pos (by simpa using hc), ← ih]
        refine congrArg (c :: ·) (dedupAgainst_congr fun a _ => ?_)
        rw [List.mem_cons, List.mem_append, List.mem_append, List.mem_cons]
        exact or_left_comm

end Candidate

/-! ## 3. Excerpts -/

/-- A run of the files of a program, with those before and those after it. Names of files tell which
of them are in the excerpt. -/
structure Excerpt where
  options : Cfg.Options
  before : List SourceUnit
  files : List SourceUnit
  after : List SourceUnit
  has : FsPath → Bool
  has_files : ∀ u ∈ files, has u.path = true
  not_has : ∀ u ∈ before ++ after, has u.path = false

namespace Excerpt

open Declarations (scopeCountOf)

/-- The program that the files are taken from. -/
def whole (t : Excerpt) : Program := ⟨t.before ++ t.files ++ t.after, t.options⟩

/-- The files as a program. -/
def part (t : Excerpt) : Program := ⟨t.files, t.options⟩

def preceding (t : Excerpt) : Program := ⟨t.before, t.options⟩

def following (t : Excerpt) : Program := ⟨t.after, t.options⟩

/-- The number that a scope of the excerpt has in the whole program. -/
def shift (t : Excerpt) : ScopeId → ScopeId := shiftFrom 0 (scopeCountOf t.before)

variable (t : Excerpt)

theorem shift_eq (i : ScopeId) : t.shift i = i + scopeCountOf t.before :=
  shiftFrom_of_le (Nat.zero_le i)

theorem declarations_whole : ∃ n, t.whole.declarations = t.preceding.declarations ++
    t.part.declarations.renumber t.shift ++ t.following.declarations.renumber (shiftFrom 0 n) := by
  refine ⟨scopeCountOf (t.before ++ t.files), ?_⟩
  show Declarations.ofUnits t.options 0 (t.before ++ t.files ++ t.after) = _
  rw [Declarations.ofUnits_append, Declarations.ofUnits_append,
    Declarations.ofUnits_shiftFrom t.options _ t.files (Nat.le_refl 0),
    Declarations.ofUnits_shiftFrom t.options _ t.after (Nat.le_refl 0)]
  rfl

theorem scopes_whole : t.whole.scopes.list =
    t.preceding.scopes.list ++ t.part.scopes.list ++ t.following.scopes.list := by
  obtain ⟨n, h⟩ := t.declarations_whole
  show t.whole.declarations.scopes = _
  rw [h]
  rfl

theorem length_scopes_preceding : t.preceding.scopes.list.length = scopeCountOf t.before :=
  Declarations.length_scopes_ofUnits t.options 0 t.before

theorem get?_whole {i : ScopeId} (hi : i < t.part.scopes.list.length) :
    t.whole.scopes.get? (t.shift i) = t.part.scopes.get? i := by
  rw [Scopes.get?, Scopes.get?, scopes_whole, shift_eq, ← length_scopes_preceding,
    List.append_assoc, List.getElem?_append_right (Nat.le_add_left _ _), Nat.add_sub_cancel,
    List.getElem?_append_left hi]

theorem scope_lt {c : Candidate} (hc : c ∈ t.part.liveCandidates) :
    c.scope < t.part.scopes.list.length := by
  have h := Declarations.scope_lt_of_mem_ofUnits (t.part.liveCandidates_sublist.subset hc)
  rw [Nat.zero_add, ← Declarations.length_scopes_ofUnits t.options 0] at h
  exact h

/-! ## 4. The candidates of the excerpt -/

/-- No live candidate of the files before has the key. -/
def IsFirst (c : Candidate) : Prop := c.key ∉ t.preceding.liveCandidates.map Candidate.key

instance (c : Candidate) : Decidable (t.IsFirst c) := inferInstanceAs (Decidable (¬ _))

theorem has_of_mem_part {c : Candidate} (hc : c ∈ t.part.declarations.candidates) :
    t.has c.file = true := by
  obtain ⟨u, hu, _, -, hstands, -⟩ := Declarations.exists_site_of_mem_ofUnits hc
  rw [hstands.file]
  exact t.has_files u hu

theorem not_has_of_mem {us : List SourceUnit} {next : ScopeId} (hus : us ⊆ t.before ++ t.after)
    {c : Candidate} (hc : c ∈ (Declarations.ofUnits t.options next us).candidates) :
    t.has c.file = false := by
  obtain ⟨u, hu, _, -, hstands, -⟩ := Declarations.exists_site_of_mem_ofUnits hc
  rw [hstands.file]
  exact t.not_has u (hus hu)

theorem isFirst_iff {c : Candidate} :
    t.IsFirst c ↔ c.key ∉ (t.preceding.declarations.candidates.filter (·.isLive)).map
      Candidate.key := by
  refine not_congr ⟨fun h => ?_, fun h => ?_⟩
  · obtain ⟨b, hb, hkey⟩ := List.mem_map.mp h
    exact hkey ▸ List.mem_map_of_mem (Candidate.mem_of_mem_dedup hb)
  · obtain ⟨b, hb, hkey⟩ := List.mem_map.mp h
    obtain ⟨a, ha, hkey'⟩ := Candidate.exists_mem_dedup_of_mem hb
    exact (hkey'.trans hkey) ▸ List.mem_map_of_mem ha

/-- Of the live candidates of the whole program, those in files of the excerpt are its own, but for
those that the files before have already. -/
theorem filter_liveCandidates_whole : (t.whole.liveCandidates.filter (t.has ·.file)) =
    (t.part.liveCandidates.filter (t.IsFirst ·)).map (·.renumber t.shift) := by
  obtain ⟨n, h⟩ := t.declarations_whole
  let g := shiftFrom 0 n
  let xs := t.preceding.declarations.candidates.filter (·.isLive)
  let ys := t.part.declarations.candidates.filter (·.isLive)
  let zs := t.following.declarations.candidates.filter (·.isLive)
  -- The candidates of the files before, of the excerpt and of the files after, with their numbers.
  have hlive : t.whole.declarations.candidates.filter (·.isLive) =
      xs ++ ys.map (·.renumber t.shift) ++ zs.map (·.renumber g) := by
    rw [h, Declarations.candidates_append, Declarations.candidates_append, List.filter_append,
      List.filter_append]
    show xs ++ (t.part.declarations.candidates.map _).filter _ ++
      (t.following.declarations.candidates.map _).filter _ = _
    rw [List.filter_map, List.filter_map]
    rfl
  have hbefore : (Candidate.dedup xs).filter (t.has ·.file) = [] := by
    rw [List.filter_eq_nil_iff]
    intro c hc
    have hmem := List.mem_of_mem_filter (Candidate.mem_of_mem_dedup hc)
    exact ne_true_of_eq_false (t.not_has_of_mem (List.subset_append_left _ _) hmem)
  have hafter (seen : List Candidate.Key) :
      (Candidate.dedupAgainst seen (zs.map (·.renumber g))).filter (t.has ·.file) = [] := by
    rw [List.filter_eq_nil_iff]
    intro c hc
    obtain ⟨b, hb, rfl⟩ := List.mem_map.mp ((Candidate.dedupAgainst_sublist _ _).subset hc)
    have hmem := List.mem_of_mem_filter hb
    exact ne_true_of_eq_false (t.not_has_of_mem (c := b) (List.subset_append_right _ _) hmem)
  have hown (seen : List Candidate.Key) :
      (Candidate.dedupAgainst seen (ys.map (·.renumber t.shift))).filter (t.has ·.file) =
        Candidate.dedupAgainst seen (ys.map (·.renumber t.shift)) := by
    rw [List.filter_eq_self]
    intro c hc
    obtain ⟨b, hb, rfl⟩ := List.mem_map.mp ((Candidate.dedupAgainst_sublist _ _).subset hc)
    exact t.has_of_mem_part (c := b) (List.mem_of_mem_filter hb)
  show (Candidate.dedup (t.whole.declarations.candidates.filter (·.isLive))).filter _ = _
  rw [hlive, Candidate.dedup, Candidate.dedupAgainst_append, Candidate.dedupAgainst_append,
    List.filter_append, List.filter_append, ← Candidate.dedup, hbefore, hown, hafter,
    List.append_nil, List.nil_append, List.append_nil, Candidate.dedupAgainst_eq_filter,
    Candidate.dedup_map (fun c => c.key_renumber t.shift), List.filter_map]
  refine congrArg (List.map _) (List.filter_congr fun c _ => ?_)
  show decide (c.key ∉ xs.map Candidate.key) = decide (t.IsFirst c)
  rw [decide_eq_decide, isFirst_iff]

/-! ## 5. What is found in the excerpt, and in the whole program -/

variable (m : Marker) (crateName : String)

/-- What a candidate of the excerpt comes to if the excerpt is all there is. -/
def describeAlone (c : Candidate) : Option Descriptor :=
  if t.part.mentions m.crateName then c.describe t.part.scopes m crateName else none

/-- What it comes to when the whole program is gone through. -/
def describeAmong (c : Candidate) : Option Descriptor :=
  if t.whole.mentions m.crateName ∧ t.IsFirst c then
    (c.renumber t.shift).describe t.whole.scopes m crateName
  else none

theorem found_part : (t.part.found m crateName).map (·.2) =
    t.part.liveCandidates.filterMap (t.describeAlone m crateName) := by
  rw [Program.map_snd_found]
  unfold describeAlone
  cases hm : t.part.mentions m.crateName with
  | true =>
    simp only [if_true]
    exact Program.descriptors_extract hm
  | false =>
    rw [Program.descriptors_extract_of_not_mentions hm]
    simp

theorem found_whole :
    ((t.whole.found m crateName).filter (t.has ·.1.file)).map (·.2) =
      t.part.liveCandidates.filterMap (t.describeAmong m crateName) := by
  unfold describeAmong Program.found
  cases hm : t.whole.mentions m.crateName with
  | true =>
    rw [if_pos rfl, map_snd_filter_pairs _ fun c : Candidate => t.has c.file,
      filter_liveCandidates_whole, List.filterMap_map, List.filterMap_filter]
    simp
  | false => simp

/-- By itself, the candidate carries the marker, and the crate of the marker is mentioned. -/
def MarkedAlone (c : Candidate) : Prop :=
  t.part.mentions m.crateName = true ∧ c.Tagged t.part.scopes m

/-- Among all files, the candidate carries the marker, is the first of its key, and the crate of the
marker is mentioned. -/
def MarkedAmong (c : Candidate) : Prop :=
  t.whole.mentions m.crateName = true ∧ t.IsFirst c ∧
    (c.renumber t.shift).Tagged t.whole.scopes m

instance (c : Candidate) : Decidable (t.MarkedAlone m c) := inferInstanceAs (Decidable (_ ∧ _))

instance (c : Candidate) : Decidable (t.MarkedAmong m c) := inferInstanceAs (Decidable (_ ∧ _ ∧ _))

/-- The candidate is found in the excerpt if it is found among all files, and asks for the same
name. -/
structure FoundAlike (c : Candidate) : Prop where
  marked : t.MarkedAlone m c ↔ t.MarkedAmong m c
  lastAlias : t.MarkedAlone m c →
    c.lastAlias t.part.scopes m = (c.renumber t.shift).lastAlias t.whole.scopes m

theorem describe_eq_iff {c : Candidate} {path : ModulePath} (hn : c.NameableIn path) :
    t.describeAlone m crateName c = t.describeAmong m crateName c ↔ t.FoundAlike m c := by
  have hname : (c.renumber t.shift).name = c.name := rfl
  have halone : t.describeAlone m crateName c = if t.MarkedAlone m c then
      some ⟨path.qualify crateName c.name, c.lastAlias t.part.scopes m⟩ else none := by
    rw [describeAlone, Candidate.describe_of_nameableIn hn]
    by_cases hm : t.part.mentions m.crateName = true <;> simp [MarkedAlone, hm]
  have hamong : t.describeAmong m crateName c = if t.MarkedAmong m c then
      some ⟨path.qualify crateName c.name, (c.renumber t.shift).lastAlias t.whole.scopes m⟩
      else none := by
    rw [describeAmong, Candidate.describe_of_nameableIn (c := c.renumber t.shift) hn, hname]
    by_cases hm : t.whole.mentions m.crateName = true <;> by_cases hfirst : t.IsFirst c <;>
      simp [MarkedAmong, hm, hfirst]
  -- Each is a descriptor of the same name or nothing, so they can only differ in the alias.
  rw [halone, hamong]
  constructor
  · intro h
    split at h
    case isTrue halone =>
      split at h
      case isTrue hamong =>
        refine ⟨iff_of_true halone hamong, fun _ => ?_⟩
        simpa using h
      case isFalse => cases h
    case isFalse halone =>
      split at h
      case isTrue => cases h
      case isFalse hamong => exact ⟨iff_of_false halone hamong, fun h => absurd h halone⟩
  · rintro ⟨hmarked, halias⟩
    by_cases halone : t.MarkedAlone m c
    · rw [if_pos halone, if_pos (hmarked.mp halone), halias halone]
    · rw [if_neg halone, if_neg (fun h => halone (hmarked.mpr h))]

/-- **What an excerpt finds.** What is found in an excerpt is what is found in its files when the
whole program is gone through, if and only if each of its candidates that can be named is found
alike. -/
theorem found_eq_iff (hp : t.part.HasNamedModules) :
    (t.part.found m crateName).map (·.2) =
        ((t.whole.found m crateName).filter (t.has ·.1.file)).map (·.2) ↔
      ∀ c ∈ t.part.liveCandidates, ∀ path, c.NameableIn path → t.FoundAlike m c := by
  rw [found_part, found_whole, filterMap_eq_filterMap_iff (·.qualifiedName) ?_]
  · refine forall₂_congr fun c hc => ⟨fun h path hn => (t.describe_eq_iff m crateName hn).mp h,
      fun h => ?_⟩
    by_cases hn : ∃ path, c.NameableIn path
    · obtain ⟨path, hn⟩ := hn
      exact (t.describe_eq_iff m crateName hn).mpr (h path hn)
    · have hnone : c.describe t.part.scopes m crateName = none :=
        Candidate.describe_of_not_nameable hn
      have hnone' : (c.renumber t.shift).describe t.whole.scopes m crateName = none :=
        Candidate.describe_of_not_nameable (c := c.renumber t.shift) hn
      rw [describeAlone, describeAmong, hnone, hnone', ite_self, ite_self]
  -- Live candidates of one qualified name are one candidate.
  · intro a ha b hb d e hd he hname
    obtain ⟨-, hd⟩ := Option.ite_none_right_eq_some.mp hd
    obtain ⟨-, he⟩ := Option.ite_none_right_eq_some.mp he
    obtain ⟨-, -, q, hna, hqa⟩ := Candidate.describe_eq_some_iff.mp hd
    obtain ⟨-, -, r, hnb, hqb⟩ := Candidate.describe_eq_some_iff.mp he
    exact Program.eq_of_qualify_eq hp ha hb hna hnb (hqa.symm.trans (hname.trans hqb))

/-! ## 6. Excerpts that do not look outside -/

/-- A module of the whole program is looked for in the right place if one goes through the excerpt
only: the files before do not declare it, and if those after do, so does the excerpt. -/
def Owns (path : ModulePath) : Prop :=
  ¬ t.preceding.Declares path ∧ (t.following.Declares path → t.part.Declares path)

instance (path : ModulePath) : Decidable (t.Owns path) := inferInstanceAs (Decidable (_ ∧ _))

/-- An excerpt that does not look outside: it mentions the marker's crate if anything does, its
candidates are the first of their keys, and the paths of their attributes lead into no module that
other files have in its stead. -/
structure SelfContained : Prop where
  mentions : t.whole.mentions m.crateName = true → t.part.mentions m.crateName = true
  isFirst : ∀ c ∈ t.part.liveCandidates, t.IsFirst c
  owns : ∀ c ∈ t.part.liveCandidates, ∀ a ∈ c.enum.attrs, a.name.leading = false →
    ∀ path, t.part.scopes.LooksUp (c.scope, a.name.names) path → t.Owns path

variable {t m}

theorem mentions_whole (h : t.part.mentions m.crateName = true) :
    t.whole.mentions m.crateName = true := by
  obtain ⟨u, hu, hmention⟩ := List.any_eq_true.mp h
  exact List.any_eq_true.mpr
    ⟨u, List.mem_append_left _ (List.mem_append_right _ hu), hmention⟩

/-- How the scopes of the excerpt are numbered in the whole program. -/
def Numbered (t : Excerpt) (i j : ScopeId) : Prop :=
  i < t.part.scopes.list.length ∧ j = t.shift i

theorem Owns.rel_idOf? {path : ModulePath} (h : t.Owns path) :
    Option.Rel t.Numbered (t.part.scopes.idOf? path) (t.whole.scopes.idOf? path) := by
  obtain ⟨hbefore, hafter⟩ := h
  have hnone {ss : List Scope} (hss : ¬ ∃ s ∈ ss, s.module? = some path) :
      ∀ s ∈ ss, (s.module? == some path) = false :=
    fun s hs => beq_eq_false_iff_ne.mpr fun heq => hss ⟨s, hs, heq⟩
  show Option.Rel _ (t.part.scopes.list.findIdx? _) (t.whole.scopes.list.findIdx? _)
  rw [scopes_whole]
  by_cases hown : t.part.Declares path
  · obtain ⟨s, hs, hmodule⟩ := hown
    obtain ⟨k, hk, hfind, hfirst⟩ := findIdx?_middle t.following.scopes.list (hnone hbefore)
      ⟨s, hs, beq_iff_eq.mpr hmodule⟩
    rw [hfirst, hfind]
    refine Option.Rel.some ⟨hk, ?_⟩
    rw [shift_eq, length_scopes_preceding, Nat.add_comm]
  · have hpart := List.findIdx?_eq_none_iff.mpr (hnone hown)
    rw [hpart, List.findIdx?_append, List.findIdx?_append, hpart,
      List.findIdx?_eq_none_iff.mpr (hnone hbefore),
      List.findIdx?_eq_none_iff.mpr (hnone (mt hafter hown))]
    exact Option.Rel.none

/-- An attribute that leads into modules of the excerpt only is a marker alike. -/
theorem SelfContained.markers_eq (h : t.SelfContained m) {c : Candidate}
    (hc : c ∈ t.part.liveCandidates) :
    (c.renumber t.shift).markers t.whole.scopes m = c.markers t.part.scopes m := by
  refine List.filter_congr fun a ha => ?_
  have hget : ∀ i j, t.Numbered i j → t.part.scopes.get? i = t.whole.scopes.get? j := by
    rintro i j ⟨hi, rfl⟩
    exact (t.get?_whole hi).symm
  have hresolve : t.part.scopes.resolve c.scope a.name =
      t.whole.scopes.resolve (t.shift c.scope) a.name :=
    Scopes.resolve_eq_of_looksUp hget ⟨t.scope_lt hc, rfl⟩ fun hleading path hlooks =>
      (h.owns c hc a ha hleading path hlooks).rel_idOf?
  show (t.whole.scopes.resolve (t.shift c.scope) a.name).any _ = _
  rw [← hresolve]
  rfl

/-- In an excerpt that does not look outside, everything is found alike. -/
theorem SelfContained.foundAlike (h : t.SelfContained m) {c : Candidate}
    (hc : c ∈ t.part.liveCandidates) : t.FoundAlike m c := by
  have hmarkers := h.markers_eq hc
  have htagged : c.Tagged t.part.scopes m ↔ (c.renumber t.shift).Tagged t.whole.scopes m := by
    rw [← Candidate.markers_ne_nil_iff, ← Candidate.markers_ne_nil_iff, hmarkers]
  refine ⟨⟨fun ⟨hm, ht⟩ => ?_, fun ⟨hm, _, ht⟩ => ?_⟩, fun _ => ?_⟩
  · exact ⟨mentions_whole hm, h.isFirst c hc, htagged.mp ht⟩
  · exact ⟨h.mentions hm, htagged.mpr ht⟩
  · rw [Candidate.lastAlias, Candidate.lastAlias, hmarkers]

/-- The excerpt of one program that is another one, and that has the files of certain names. -/
structure IsOf (t : Excerpt) (whole part : Program) (names : List FsPath) : Prop where
  whole : t.whole = whole
  part : t.part = part
  has : ∀ f, t.has f = true ↔ f ∈ names

/-- Between a program and an excerpt of it, given as programs. -/
theorem IsOf.found_eq_iff {t : Excerpt} {whole part : Program} {names : List FsPath}
    (ht : t.IsOf whole part names) (hp : part.HasNamedModules) (m : Marker) (crateName : String) :
    (part.found m crateName).map (·.2) =
        ((whole.found m crateName).filter (·.1.file ∈ names)).map (·.2) ↔
      ∀ c ∈ part.liveCandidates, ∀ path, c.NameableIn path → t.FoundAlike m c := by
  obtain ⟨rfl, rfl, hhas⟩ := ht
  have hfilter : (fun x : Candidate × Descriptor => decide (x.1.file ∈ names)) =
      fun x => t.has x.1.file := by
    funext x
    rw [Bool.eq_iff_iff, decide_eq_true_iff, hhas]
  rw [hfilter]
  exact t.found_eq_iff m crateName hp

end Excerpt

end EnumCatalog
