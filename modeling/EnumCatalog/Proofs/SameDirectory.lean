import EnumCatalog.Proofs.DirectorySteps
import EnumCatalog.Proofs.Search

/-!
# The same directory by other names

The module tree of a crate is made from the name of the directory that its root file is in, and the
names of all other files are made up from there. Another name of that directory leads to the same
tree: each file is then sought by another name, but at the same location
(`ModuleTree.ofRoot_eq_of_sameDirectory`).

Names of directories are made up in two ways, by going on from a directory and by going back from a
file to the directory around it. The first is possible from every name. The second is not, since the
name of a directory says nothing of how its parent is called; but a file that was called by going on
from a directory can be gone back from (`Disk.SameDirectory.directory_join`).
-/

set_option autoImplicit false

namespace EnumCatalog

open Syntax (Item ModuleHead)

/-! ## 1. Names of a directory -/

namespace FsPath

variable {dir q : FsPath}

theorem join_of_isAbsolute (dir : FsPath) (h : q.isAbsolute = true) : dir.join q = q := by
  rw [join, h, Bool.true_or, if_pos rfl]

/-- The directory around a file is called by the steps of the file but the last. -/
theorem steps_directory_join (hdir : dir.text ≠ "") (hq : q.isAbsolute = false)
    (hsteps : q.steps ≠ []) :
    (dir.join q).directory.steps = dir.steps ++ q.steps.dropLast ∧
      (dir.isAbsolute = false → (dir.join q).directory.isAbsolute = false) := by
  have hjoin := steps_join hdir hq
  obtain ⟨r, hr, hrSteps, hrText⟩ := exists_parent? (p := dir.join q) (by simp [hjoin, hsteps])
  rw [directory, hr, Option.getD_some]
  refine ⟨?_, fun habs => isAbsolute_of_prefix hrText ?_⟩
  · rw [hrSteps, hjoin, List.dropLast_append_of_ne_nil hsteps]
  · rw [(text_join_of_relative hdir hq).1, habs]

end FsPath

namespace Disk

variable {d : Disk} {dir dir' q : FsPath}

/-- The name of a file goes on from that of the directory by a step at least. -/
theorem steps_ne_nil_of_isFile (hp : d.IsPlain) (hdir : dir.text ≠ "")
    (habs : dir.isAbsolute = false) (hq : q.isAbsolute = false)
    (hfile : d.isFile (dir.join q) = true) : q.steps ≠ [] := by
  intro hnil
  rw [isFile_eq] at hfile
  have hne := FsPath.text_join_of_relative_ne hdir hq
  have hjoin := (FsPath.text_join_of_relative hdir hq).1
  have hsteps : (dir.join q).steps = dir.steps := by
    rw [FsPath.steps_join hdir hq, hnil, List.append_nil]
  cases hlead : d.lead? [] dir.steps with
  | none =>
    rw [canonical?_join_eq_bind hp hdir habs hq, hlead] at hfile
    cases hfile
  | some k =>
    rw [canonical?_of_lead? hp hne (hjoin.trans habs) (hsteps ▸ hlead), Option.bind_some,
      view_of_lead? d.view_root hlead] at hfile
    cases hfile

/-- Two names of one directory, each of which can be gone on from. -/
inductive SameDirectory (d : Disk) : FsPath → FsPath → Prop where
  | refl (dir : FsPath) : SameDirectory d dir dir
  | lead {dir dir' : FsPath} (habs : dir.isAbsolute = false) (habs' : dir'.isAbsolute = false)
      (hne : dir.steps ≠ []) (hne' : dir'.steps ≠ [])
      (hlead : d.lead? [] dir.steps = d.lead? [] dir'.steps) : SameDirectory d dir dir'

namespace SameDirectory

theorem canonical?_join (hp : d.IsPlain) (h : d.SameDirectory dir dir') (q : FsPath) :
    d.canonical? (dir.join q) = d.canonical? (dir'.join q) := by
  cases h with
  | refl => rfl
  | lead habs habs' hne hne' hlead =>
    cases hq : q.isAbsolute with
    | true => rw [FsPath.join_of_isAbsolute dir hq, FsPath.join_of_isAbsolute dir' hq]
    | false =>
      rw [canonical?_join_eq_bind hp (FsPath.text_ne_of_steps_ne_nil hne) habs hq,
        canonical?_join_eq_bind hp (FsPath.text_ne_of_steps_ne_nil hne') habs' hq, hlead]

theorem isFile_join (hp : d.IsPlain) (h : d.SameDirectory dir dir') (q : FsPath) :
    d.isFile (dir.join q) = d.isFile (dir'.join q) := by
  rw [isFile_eq, isFile_eq, h.canonical?_join hp]

theorem join (h : d.SameDirectory dir dir') (q : FsPath) :
    d.SameDirectory (dir.join q) (dir'.join q) := by
  cases h with
  | refl => exact .refl _
  | lead habs habs' hne hne' hlead =>
    cases hq : q.isAbsolute with
    | true =>
      rw [FsPath.join_of_isAbsolute dir hq, FsPath.join_of_isAbsolute dir' hq]
      exact .refl q
    | false =>
      have htext := FsPath.text_ne_of_steps_ne_nil hne
      have htext' := FsPath.text_ne_of_steps_ne_nil hne'
      have hsteps := FsPath.steps_join htext hq
      have hsteps' := FsPath.steps_join htext' hq
      refine .lead ?_ ?_ (by simp [hsteps, hne]) (by simp [hsteps', hne']) ?_
      · rw [(FsPath.text_join_of_relative htext hq).1, habs]
      · rw [(FsPath.text_join_of_relative htext' hq).1, habs']
      · rw [hsteps, hsteps', lead?_append, lead?_append, hlead]

/-- From a file one comes back to the same directory. -/
theorem directory_join (hp : d.IsPlain) (h : d.SameDirectory dir dir')
    (hfile : d.isFile (dir.join q) = true) :
    d.SameDirectory (dir.join q).directory (dir'.join q).directory := by
  cases h with
  | refl => exact .refl _
  | lead habs habs' hne hne' hlead =>
    cases hq : q.isAbsolute with
    | true =>
      rw [FsPath.join_of_isAbsolute dir hq, FsPath.join_of_isAbsolute dir' hq]
      exact .refl _
    | false =>
      have htext := FsPath.text_ne_of_steps_ne_nil hne
      have hlast := steps_ne_nil_of_isFile hp htext habs hq hfile
      obtain ⟨hsteps, hrel⟩ := FsPath.steps_directory_join htext hq hlast
      obtain ⟨hsteps', hrel'⟩ :=
        FsPath.steps_directory_join (FsPath.text_ne_of_steps_ne_nil hne') hq hlast
      refine .lead (hrel habs) (hrel' habs') (by simp [hsteps, hne]) (by simp [hsteps', hne']) ?_
      rw [hsteps, hsteps', lead?_append, lead?_append, hlead]

end SameDirectory

end Disk

/-! ## 2. Declarations -/

/-- A module that is pending for the same file, whose modules are sought in the same directories. -/
structure Pending.Alike (d : Disk) (p p' : Pending) : Prop where
  module : p.module = p'.module
  exported : p.exported = p'.exported
  canonical? : d.canonical? p.file = d.canonical? p'.file
  directory : d.isFile p.file = true → d.SameDirectory p.file.directory p'.file.directory
  childrenDir : d.isFile p.file = true → d.SameDirectory p.childrenDir p'.childrenDir

inductive Declared.Alike (d : Disk) : Declared → Declared → Prop where
  | disabled (m : ModulePath) : Alike d (.disabled m) (.disabled m)
  | pending {p p' : Pending} (h : p.Alike d p') : Alike d (.pending p) (.pending p')

namespace ModulePlace

/-- The same place, whose directories may be called by other names. -/
structure Alike (d : Disk) (p p' : ModulePlace) : Prop where
  module : p.module = p'.module
  exported : p.exported = p'.exported
  baseDir : d.SameDirectory p.baseDir p'.baseDir
  childrenDir : d.SameDirectory p.childrenDir p'.childrenDir

variable {d : Disk} {p p' : ModulePlace}

theorem Alike.exports (h : p.Alike d p') (head : ModuleHead) : p.exports head = p'.exports head := by
  rw [ModulePlace.exports, ModulePlace.exports, h.module, h.exported]

theorem Alike.within (h : p.Alike d p') (head : ModuleHead) :
    (p.within head).Alike d (p'.within head) where
  module := congrArg (·.child head.ident.name) h.module
  exported := h.exports head
  baseDir := h.childrenDir.join _
  childrenDir := h.childrenDir.join _

theorem Alike.pendingOf (hp : d.IsPlain) (h : p.Alike d p') (head : ModuleHead) :
    (p.pendingOf d head).Alike d (p'.pendingOf d head) := by
  have hmodule : p.module.child head.ident.name = p'.module.child head.ident.name :=
    congrArg (·.child head.ident.name) h.module
  have hexported := h.exports head
  unfold ModulePlace.pendingOf fileOf
  cases head.pathValue? with
  | some path =>
    have hdirectory := h.baseDir.directory_join hp (q := ⟨path⟩)
    refine ⟨hmodule, hexported, ?_, ?_, ?_⟩
    all_goals dsimp only
    exacts [h.baseDir.canonical?_join hp _, hdirectory, hdirectory]
  | none =>
    simp only [← h.childrenDir.isFile_join hp]
    have hinner := h.childrenDir.join ⟨head.ident.name⟩
    split
    · exact ⟨hmodule, hexported, h.childrenDir.canonical?_join hp _,
        h.childrenDir.directory_join hp, fun _ => hinner⟩
    · exact ⟨hmodule, hexported, hinner.canonical?_join hp _, hinner.directory_join hp,
        fun _ => hinner⟩

mutual

/-- In places that are alike, the same modules are declared. -/
theorem Alike.declared (hp : d.IsPlain) {p p' : ModulePlace} (h : p.Alike d p') (o : Cfg.Options)
    (i : Item) : List.Forall₂ (Declared.Alike d) (ModulePlace.declared d o p i)
      (ModulePlace.declared d o p' i) := by
  cases i with
  | fileModule head =>
    rw [ModulePlace.declared, ModulePlace.declared, h.module]
    split
    · exact .cons (.pending (h.pendingOf hp head)) .nil
    · exact .cons (.disabled _) .nil
  | inlineModule head items =>
    rw [ModulePlace.declared, ModulePlace.declared, h.module]
    split
    · exact (h.within head).declaredIn hp o items
    · exact .cons (.disabled _) .nil
  | _ =>
    simp only [ModulePlace.declared]
    exact .nil

theorem Alike.declaredIn (hp : d.IsPlain) {p p' : ModulePlace} (h : p.Alike d p')
    (o : Cfg.Options) (items : List Item) :
    List.Forall₂ (Declared.Alike d) (ModulePlace.declaredIn d o p items)
      (ModulePlace.declaredIn d o p' items) := by
  cases items with
  | nil =>
    rw [ModulePlace.declaredIn, ModulePlace.declaredIn]
    exact .nil
  | cons i rest =>
    rw [ModulePlace.declaredIn, ModulePlace.declaredIn]
    exact List.rel_append (h.declared hp o i) (h.declaredIn hp o rest)

end

end ModulePlace

/-! ## 3. The search -/

namespace ModuleTree

variable {d : Disk} {o : Cfg.Options}

theorem disabledEvents_congr {ds ds' : List Declared} (h : List.Forall₂ (Declared.Alike d) ds ds') :
    disabledEvents ds = disabledEvents ds' := by
  induction h with
  | nil => rfl
  | cons hd _ ih =>
    cases hd with
    | disabled m => exact congrArg (.moduleDisabled m :: ·) ih
    | pending => exact ih

theorem forall₂_pendingOf {ds ds' : List Declared} (h : List.Forall₂ (Declared.Alike d) ds ds') :
    List.Forall₂ (Pending.Alike d) (pendingOf ds) (pendingOf ds') := by
  induction h with
  | nil => exact .nil
  | cons hd _ ih =>
    cases hd with
    | disabled => exact ih
    | pending hp => exact .cons hp ih

theorem isFile_of_load? {p : Pending} {f : TreeFile} (h : load? d p = some f) :
    d.isFile p.file = true := by
  obtain ⟨c, hc⟩ := exists_nodeAt?_of_load? h
  rw [Disk.isFile_eq, (load?_eq_some_iff.mp h).1, Option.bind_some, Disk.view, hc]
  rfl

theorem load?_congr {p p' : Pending} (h : p.Alike d p') : load? d p = load? d p' := by
  unfold load?
  rw [Disk.readText?_eq, Disk.readText?_eq, h.canonical?, h.module, h.exported]

theorem round_congr (hp : d.IsPlain) {next : List Location → List Pending → Found}
    (hnext : ∀ reached ps ps', List.Forall₂ (Pending.Alike d) ps ps' →
      next reached ps = next reached ps')
    (reached : List Location) {ps ps' : List Pending}
    (h : List.Forall₂ (Pending.Alike d) ps ps') :
    round d o next reached ps = round d o next reached ps' := by
  -- Along the pending modules up to the first that is read, which declares the same for both.
  induction h with
  | nil => rfl
  | @cons p p' rest rest' hpending hrest ih =>
    rw [round, round, ← hpending.canonical?, ← load?_congr hpending, ← hpending.module, ih]
    split
    · rfl
    · cases hload : load? d p with
      | none => rfl
      | some f =>
        have hfile := isFile_of_load? hload
        have hplace : (ModulePlace.ofPending p).Alike d (.ofPending p') :=
          ⟨hpending.module, hpending.exported, hpending.directory hfile,
            hpending.childrenDir hfile⟩
        have hdeclared := hplace.declaredIn hp o f.source.items
        simp only
        rw [disabledEvents_congr hdeclared, hnext _ _ _
          (List.rel_append (List.rel_reverse (forall₂_pendingOf hdeclared)) hrest)]

theorem searchWithin_congr (hp : d.IsPlain) (n : Nat) (reached : List Location)
    {ps ps' : List Pending} (h : List.Forall₂ (Pending.Alike d) ps ps') :
    searchWithin d o n reached ps = searchWithin d o n reached ps' := by
  induction n generalizing reached ps ps' with
  | zero => rfl
  | succ n ih => exact round_congr hp (fun reached _ _ h => ih reached h) reached h

/-- A directory called by another name is the root directory of the same crate. -/
theorem ofRoot_eq_of_sameDirectory (hp : d.IsPlain) {root root' : FsPath}
    (h : d.SameDirectory root root') : ofRoot d o root = ofRoot d o root' := by
  refine searchWithin_congr hp _ [] ?_
  unfold rootIn?
  induction rootNames with
  | nil => exact .nil
  | cons name names ih =>
    rw [List.map_cons, List.map_cons, List.find?_cons, List.find?_cons, ← h.isFile_join hp]
    cases hfile : d.isFile (root.join name) with
    | false => exact ih
    | true =>
      exact .cons ⟨rfl, rfl, h.canonical?_join hp name, h.directory_join hp, fun _ => h⟩ .nil

end ModuleTree

/-! ## 4. Directories of one crate -/

/-- A directory of the sources of a crate, and one below it. The name of the second goes on from that
of the first, and on the way there is neither generated output, nor what a build leaves behind, nor
another directory of sources. -/
structure Disk.Overlap (d : Disk) (dir inner : FsPath) : Prop where
  isDirectory : d.isDirectory dir = true
  isDirectory_inner : d.isDirectory inner = true
  src_mem : "src" ∈ dir.steps
  goesOn : ∃ rest, inner.steps = dir.steps ++ rest ∧
    ∀ n ∈ rest, n ∉ ["generated", "target", "src"]
  below : ∃ l names, d.canonical? dir = some l ∧ d.canonical? inner = some (l ++ names)

namespace Disk.Overlap

variable {d : Disk} {dir inner : FsPath} (w : d.Overlap dir inner)
include w

/-- Both belong to the same crate. -/
theorem sameDirectory_sourceRoot (hp : d.IsPlain) :
    d.SameDirectory (Loading.sourceRoot dir) (Loading.sourceRoot inner) := by
  obtain ⟨rest, hrest, havoids⟩ := w.goesOn
  obtain ⟨l, names, hdir, hinner⟩ := w.below
  obtain ⟨above, below, hsteps, hbelow⟩ := FsPath.exists_last_src w.src_mem
  have hinnerSteps : inner.steps = above ++ "src" :: (below ++ rest) := by
    rw [hrest, hsteps, List.append_assoc, List.cons_append]
  have hnot : "src" ∉ below ++ rest := by
    rw [List.mem_append, not_or]
    exact ⟨hbelow, fun h => havoids _ h (by simp)⟩
  obtain ⟨hroot, htext⟩ := FsPath.steps_sourceRoot hsteps hbelow
  obtain ⟨hroot', htext'⟩ := FsPath.steps_sourceRoot hinnerSteps hnot
  refine .lead (FsPath.isAbsolute_of_prefix htext (Disk.walk_of_canonical? hp hdir).1)
    (FsPath.isAbsolute_of_prefix htext' (Disk.walk_of_canonical? hp hinner).1) ?_ ?_ ?_
  · simp [hroot]
  · simp [hroot']
  · rw [hroot, hroot']

/-- What stands between the two in the location is in the name. -/
theorem exists_between (hp : d.IsPlain) : ∃ l names, d.canonical? dir = some l ∧
    d.canonical? inner = some (l ++ names) ∧ ∀ n ∈ names, n ∉ ["generated", "target", "src"] := by
  obtain ⟨rest, hrest, havoids⟩ := w.goesOn
  obtain ⟨l, names, hdir, hinner⟩ := w.below
  have hlead := lead?_of_canonical? hp hdir (view_of_isDirectory w.isDirectory hdir)
  have hleadInner :=
    lead?_of_canonical? hp hinner (view_of_isDirectory w.isDirectory_inner hinner)
  rw [hrest, lead?_append, hlead, Option.bind_some] at hleadInner
  obtain ⟨kept, new, heq, ⟨more, hmore⟩, hnew⟩ := exists_of_lead? hleadInner
  rw [← hmore, List.append_assoc, List.append_cancel_left_eq] at heq
  refine ⟨l, names, hdir, hinner, fun n hn => havoids n (hnew n ?_)⟩
  rw [← heq]
  exact List.mem_append_right more hn

end Disk.Overlap

end EnumCatalog
