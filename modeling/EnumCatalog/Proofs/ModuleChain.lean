import EnumCatalog.Proofs.Declaring
import EnumCatalog.Proofs.Search

/-!
# Chains of declarations

Why a file belongs to a crate: declarations of modules lead to it from the root file, through files
that belong to the crate themselves and through modules in braces (`ModuleTree.Chain`). Which file a
declaration names is told apart from the search (`NamesFile`): an attribute says so, or the module's
name does.

The search keeps no file without such a chain. Along the chain every module is known to be compiled,
their names make up the module path that the file is kept with, and it is kept as exported if and
only if each of them can be named from the crate root where it is declared. As every round of the
search reaches another file, it comes to an end on every disk, whatever the declarations lead to
(`ofRoot_justified`).
-/

set_option autoImplicit false

namespace EnumCatalog

open Syntax (Item ModuleHead SourceFile)

/-! ## 1. Modules along a chain -/

namespace ModulePath

/-- Each of the modules can be named from the crate root where it is declared, the first one in this
module and every other one in the one before. -/
def NameableAlong (m : ModulePath) (hs : List ModuleHead) : Prop :=
  ∀ above h below, hs = above ++ h :: below → (m.descend above).nameableFromRoot h.vis = true

theorem nameableAlong_nil (m : ModulePath) : m.NameableAlong [] := by
  intro above h below heq
  cases above <;> cases heq

theorem nameableAlong_cons {m : ModulePath} {h : ModuleHead} {hs : List ModuleHead} :
    m.NameableAlong (h :: hs) ↔
      m.nameableFromRoot h.vis = true ∧ (m.child h.ident.name).NameableAlong hs := by
  constructor
  · intro hall
    refine ⟨?_, fun above g below heq => ?_⟩
    · have hfirst := hall [] h hs rfl
      rwa [descend_nil] at hfirst
    · have hrest := hall (h :: above) g below (by rw [heq, List.cons_append])
      rwa [descend_cons] at hrest
  · rintro ⟨hfirst, hrest⟩ above g below heq
    cases above with
    | nil =>
      obtain ⟨rfl, -⟩ := List.cons.inj heq
      rwa [descend_nil]
    | cons a above =>
      obtain ⟨rfl, hbelow⟩ := List.cons.inj heq
      rw [descend_cons]
      exact hrest above g below hbelow

theorem descend_append (m : ModulePath) (hs gs : List ModuleHead) :
    m.descend (hs ++ gs) = (m.descend hs).descend gs := by
  simp [descend]

theorem nameableAlong_append {m : ModulePath} {hs gs : List ModuleHead} :
    m.NameableAlong (hs ++ gs) ↔ m.NameableAlong hs ∧ (m.descend hs).NameableAlong gs := by
  induction hs generalizing m with
  | nil => simp [nameableAlong_nil]
  | cons h hs ih => rw [List.cons_append, nameableAlong_cons, nameableAlong_cons, ih, descend_cons,
      and_assoc]

theorem nameableAlong_singleton {m : ModulePath} {h : ModuleHead} :
    m.NameableAlong [h] ↔ m.nameableFromRoot h.vis = true := by
  rw [nameableAlong_cons]
  exact and_iff_left (nameableAlong_nil _)

end ModulePath

/-! ## 2. What a declaration names -/

/-- The directory of the innermost of several modules in braces. Each stands for a directory in that
of the one around it, by its name or by the one that an attribute gives. -/
def directoryOf (dir : FsPath) (hs : List ModuleHead) : FsPath :=
  hs.foldl (fun dir h => dir.join ⟨h.pathValue?.getD h.ident.name⟩) dir

/-- The file that a declaration of a module without a body names, and the directory in which the
files of that module's own modules are sought. -/
inductive NamesFile (d : Disk) (base dir : FsPath) (h : ModuleHead) : FsPath → FsPath → Prop where
  | byAttribute {path : String} (hpath : h.pathValue? = some path) :
      NamesFile d base dir h (base.join ⟨path⟩) (base.join ⟨path⟩).directory
  | byName (hpath : h.pathValue? = none)
      (hfile : d.isFile (dir.join ⟨h.ident.name ++ ".rs"⟩) = true) :
      NamesFile d base dir h (dir.join ⟨h.ident.name ++ ".rs"⟩) (dir.join ⟨h.ident.name⟩)
  | inDirectory (hpath : h.pathValue? = none)
      (hfile : d.isFile (dir.join ⟨h.ident.name ++ ".rs"⟩) = false) :
      NamesFile d base dir h ((dir.join ⟨h.ident.name⟩).join ⟨"mod.rs"⟩) (dir.join ⟨h.ident.name⟩)

namespace ModulePlace

variable {d : Disk} {o : Cfg.Options}

/-- A declaration leads to the file that it names. -/
theorem namesFile_iff {p : ModulePlace} {h : ModuleHead} {file dir : FsPath} :
    NamesFile d p.baseDir p.childrenDir h file dir ↔
      (p.pendingOf d h).file = file ∧ (p.pendingOf d h).childrenDir = dir := by
  unfold pendingOf fileOf
  constructor
  · rintro (hpath | ⟨hpath, hfile⟩ | ⟨hpath, hfile⟩)
    · simp [hpath]
    · simp [hpath, hfile]
    · simp [hpath, hfile]
  · cases hpath : h.pathValue? with
    | some path =>
      rintro ⟨rfl, rfl⟩
      exact .byAttribute hpath
    | none =>
      cases hfile : d.isFile (p.childrenDir.join ⟨h.ident.name ++ ".rs"⟩) with
      | true =>
        simp only [hfile, if_true]
        rintro ⟨rfl, rfl⟩
        exact .byName hpath hfile
      | false =>
        simp only [hfile, Bool.false_eq_true, if_false]
        rintro ⟨rfl, rfl⟩
        exact .inDirectory hpath hfile

theorem module_descend (p : ModulePlace) (hs : List ModuleHead) :
    (p.descend hs).module = p.module.descend hs := by
  induction hs generalizing p with
  | nil => rw [descend_nil, ModulePath.descend_nil]
  | cons h hs ih =>
    rw [descend_cons, ih, ModulePath.descend_cons]
    rfl

theorem exported_descend {p : ModulePlace} {hs : List ModuleHead} :
    (p.descend hs).exported = true ↔ p.exported = true ∧ p.module.NameableAlong hs := by
  induction hs generalizing p with
  | nil => simp [ModulePath.nameableAlong_nil]
  | cons h hs ih =>
    rw [descend_cons, ih, ModulePath.nameableAlong_cons, ← and_assoc]
    refine and_congr_left fun _ => ?_
    rw [← Bool.and_eq_true]
    rfl

theorem childrenDir_descend (p : ModulePlace) (hs : List ModuleHead) :
    (p.descend hs).childrenDir = directoryOf p.childrenDir hs := by
  induction hs generalizing p with
  | nil => rfl
  | cons h hs ih => exact ih (p.within h)

/-- Within modules in braces attributes name files from the directory of the innermost. -/
theorem baseDir_descend (p : ModulePlace) (hs : List ModuleHead) :
    (p.descend hs).baseDir = if hs = [] then p.baseDir else directoryOf p.childrenDir hs := by
  induction hs generalizing p with
  | nil => rfl
  | cons h hs ih =>
    rw [descend_cons, ih, if_neg (List.cons_ne_nil h hs)]
    split
    case isTrue hnil =>
      rw [hnil]
      rfl
    case isFalse => rfl

mutual

/-- A module that an item declares is declared at a site of it, where everything is compiled. -/
theorem exists_site_of_mem_declared {p : ModulePlace} {i : Item} {q : Pending}
    (hq : Declared.pending q ∈ declared d o p i) :
    ∃ (s : Site) (h : ModuleHead), s.fill [.fileModule h] = [i] ∧
      (∀ g ∈ s.heads ++ [h], o.enabled g.attrs = some true) ∧
      q = (p.descend s.heads).pendingOf d h := by
  cases i with
  | fileModule h =>
    rw [declared] at hq
    split at hq
    case isTrue he =>
      refine ⟨.here [] [], h, rfl, fun g hg => ?_, Declared.pending.inj (List.mem_singleton.mp hq)⟩
      rw [List.mem_singleton.mp hg]
      exact isEnabled_iff.mp he
    case isFalse => cases List.mem_singleton.mp hq
  | inlineModule h items =>
    rw [declared] at hq
    split at hq
    case isTrue he =>
      obtain ⟨s, g, hfill, henabled, rfl⟩ := exists_site_of_mem_declaredIn hq
      refine ⟨.within [] h s [], g, by rw [Site.fill_within_nil, hfill], ?_, rfl⟩
      exact List.forall_mem_cons.mpr ⟨isEnabled_iff.mp he, henabled⟩
    case isFalse => cases List.mem_singleton.mp hq
  | _ => cases hq

/-- A module that items declare is declared at a site of them, where everything is compiled. -/
theorem exists_site_of_mem_declaredIn {p : ModulePlace} {items : List Item} {q : Pending}
    (hq : Declared.pending q ∈ declaredIn d o p items) :
    ∃ (s : Site) (h : ModuleHead), s.fill [.fileModule h] = items ∧
      (∀ g ∈ s.heads ++ [h], o.enabled g.attrs = some true) ∧
      q = (p.descend s.heads).pendingOf d h := by
  cases items with
  | nil => cases hq
  | cons i rest =>
    rw [declaredIn, List.mem_append] at hq
    rcases hq with hq | hq
    · obtain ⟨s, h, hfill, henabled, hq⟩ := exists_site_of_mem_declared hq
      cases s with
      | here before after =>
        refine ⟨.here before (after ++ rest), h, ?_, henabled, hq⟩
        rw [Site.fill] at hfill ⊢
        rw [← List.append_assoc, hfill, List.singleton_append]
      | within before g s after =>
        refine ⟨.within before g s (after ++ rest), h, ?_, henabled, hq⟩
        rw [Site.fill] at hfill ⊢
        rw [← List.cons_append, ← List.append_assoc, hfill, List.singleton_append]
    · obtain ⟨s, h, hfill, henabled, hq⟩ := exists_site_of_mem_declaredIn hq
      exact ⟨s.past i, h, by rw [Site.fill_past, hfill], by rw [Site.heads_past]; exact henabled,
        by rw [Site.heads_past]; exact hq⟩

end

end ModulePlace

/-! ## 3. The search -/

namespace ModuleTree

variable {d : Disk} {o : Cfg.Options} {root : FsPath} {tree : ModuleTree}

/-- Declarations of modules lead from the root file of a crate to a file, by way of files of which
something holds, and of modules in braces. The files of the last module's own modules are sought in
the directory. -/
inductive Chain (d : Disk) (root : FsPath)
    (holds : List ModuleHead → FsPath → FsPath → SourceFile → Prop) :
    List ModuleHead → FsPath → FsPath → Prop where
  | lib (hfile : d.isFile (root.join ⟨"lib.rs"⟩) = true) :
      Chain d root holds [] (root.join ⟨"lib.rs"⟩) root
  | main (hlib : d.isFile (root.join ⟨"lib.rs"⟩) = false)
      (hfile : d.isFile (root.join ⟨"main.rs"⟩) = true) :
      Chain d root holds [] (root.join ⟨"main.rs"⟩) root
  | declared {hs : List ModuleHead} {file dir file' dir' : FsPath} {source : SourceFile} {s : Site}
      {h : ModuleHead} (hchain : Chain d root holds hs file dir)
      (hsource : holds hs file dir source) (hfill : s.fill [.fileModule h] = source.items)
      (hnames : NamesFile d (if s.heads = [] then file.directory else directoryOf dir s.heads)
        (directoryOf dir s.heads) h file' dir') :
      Chain d root holds (hs ++ (s.heads ++ [h])) file' dir'

/-- The tree has a file, with the module of a chain that leads to it. -/
def KeptIn (d : Disk) (tree : ModuleTree) (hs : List ModuleHead) (file _dir : FsPath)
    (source : SourceFile) : Prop :=
  ∃ f ∈ tree, d.canonical? file = some f.location ∧ f.module = ModulePath.root.descend hs ∧
    f.source = source

/-- What a pending module is by a chain that leads to it. -/
structure Fits (p : Pending) (hs : List ModuleHead) : Prop where
  module : p.module = ModulePath.root.descend hs
  exported : p.exported = true ↔ ModulePath.root.NameableAlong hs

/-- The root file has no chain to go by. -/
theorem fits_root (file dir : FsPath) : Fits ⟨file, .root, true, dir⟩ [] where
  module := (ModulePath.descend_nil _).symm
  exported := iff_of_true rfl (ModulePath.nameableAlong_nil _)

/-- A module that is declared in the file of a pending one goes on its chain. -/
theorem Fits.pendingOf {p : Pending} {hs : List ModuleHead} (hp : Fits p hs)
    (heads : List ModuleHead) (h : ModuleHead) :
    Fits (((ModulePlace.ofPending p).descend heads).pendingOf d h) (hs ++ (heads ++ [h])) := by
  have hplace : ((ModulePlace.ofPending p).descend heads).module =
      ModulePath.root.descend (hs ++ heads) := by
    rw [ModulePlace.module_descend, ModulePath.descend_append, ← hp.module]
    rfl
  constructor
  · rw [← List.append_assoc, ModulePath.descend_append, ← hplace, ModulePath.descend_cons,
      ModulePath.descend_nil]
    rfl
  · have hexports : (((ModulePlace.ofPending p).descend heads).pendingOf d h).exported =
        (((ModulePlace.ofPending p).descend heads).exported && _) := rfl
    rw [hexports, Bool.and_eq_true, ModulePlace.exported_descend, hplace, ← List.append_assoc,
      ModulePath.nameableAlong_append, ModulePath.nameableAlong_append,
      ModulePath.nameableAlong_singleton, ← hp.exported, ← hp.module]
    rfl

/-- What makes a pending module belong to the crate: a chain of modules that are compiled, by which
it is the module that it is and can be named if it can. -/
def Justified (d : Disk) (o : Cfg.Options) (root : FsPath) (tree : ModuleTree) (p : Pending) :
    Prop :=
  ∃ hs, Chain d root (KeptIn d tree) hs p.file p.childrenDir ∧ Fits p hs ∧
    ∀ h ∈ hs, o.enabled h.attrs = some true

theorem justified_of_mem_root {p : Pending} (hp : p ∈ (rootIn? d root).toList) :
    Justified d o root tree p := by
  obtain ⟨file, hfind, heq⟩ := Option.bind_eq_some_iff.mp (Option.mem_toList.mp hp)
  obtain rfl := Option.some.inj heq
  refine ⟨[], ?_, fits_root _ _, fun h hh => absurd hh List.not_mem_nil⟩
  simp only [rootNames, List.map_cons, List.map_nil, List.find?_cons] at hfind
  split at hfind
  next hlib =>
    obtain rfl := Option.some.inj hfind
    exact .lib hlib
  next hlib =>
    split at hfind
    next hmain =>
      obtain rfl := Option.some.inj hfind
      exact .main hlib hmain
    next => cases hfind

theorem mem_declaredBy_iff {p q : Pending} {f : TreeFile} :
    q ∈ declaredBy d o p f ↔
      Declared.pending q ∈ ModulePlace.declaredIn d o (.ofPending p) f.source.items := by
  rw [declaredBy, List.mem_reverse, pendingOf, List.mem_filterMap]
  constructor
  · rintro ⟨x, hx, hxq⟩
    cases x with
    | disabled m => cases hxq
    | pending q' => exact Option.some.inj hxq ▸ hx
  · exact fun h => ⟨_, h, rfl⟩

/-- A module that is declared in a file of the crate belongs to it. -/
theorem Justified.declared {p q : Pending} {f : TreeFile} (hp : Justified d o root tree p)
    (hload : load? d p = some f) (hf : f ∈ tree) (hq : q ∈ declaredBy d o p f) :
    Justified d o root tree q := by
  obtain ⟨hs, hchain, hfits, henabled⟩ := hp
  obtain ⟨hlocation, -, hmodule, -⟩ := load?_eq_some_iff.mp hload
  obtain ⟨s, h, hfill, hcompiled, rfl⟩ :=
    ModulePlace.exists_site_of_mem_declaredIn (mem_declaredBy_iff.mp hq)
  refine ⟨hs ++ (s.heads ++ [h]), ?_, hfits.pendingOf s.heads h,
    List.forall_mem_append.mpr ⟨henabled, hcompiled⟩⟩
  refine hchain.declared ⟨f, hf, hlocation, hmodule.trans hfits.module, rfl⟩ hfill ?_
  have hnames := ModulePlace.namesFile_iff.mpr
    (⟨rfl, rfl⟩ : (((ModulePlace.ofPending p).descend s.heads).pendingOf d h).file = _ ∧ _ = _)
  rw [ModulePlace.baseDir_descend, ModulePlace.childrenDir_descend] at hnames
  exact hnames

/-- Every pending module that a search visits belongs to the crate, if those at its start do. -/
theorem Searches.justified {reached : List Location} {pending : List Pending} {visits : List Visit}
    (hs : Searches d o reached pending visits) (htree : filesOf visits ⊆ tree)
    (hpending : ∀ p ∈ pending, Justified d o root tree p) :
    ∀ v ∈ visits, Justified d o root tree v.pending := by
  induction hs with
  | done reached => exact fun v hv => absurd hv List.not_mem_nil
  | pass _ _ ih =>
    rw [List.forall_mem_cons] at hpending ⊢
    exact ⟨hpending.1, ih htree hpending.2⟩
  | @read _ p rest visits f hload _ _ ih =>
    rw [List.forall_mem_cons] at hpending ⊢
    obtain ⟨hf, hrest⟩ := List.cons_subset.mp (show f :: filesOf visits ⊆ tree from htree)
    refine ⟨hpending.1, ih hrest (List.forall_mem_append.mpr ⟨fun q hq => ?_, hpending.2⟩)⟩
    exact hpending.1.declared hload hf hq

/-- A file of the tree was read for a pending module that belongs to the crate. -/
theorem justified_of_mem {f : TreeFile} (hf : f ∈ (ofRoot d o root).tree) :
    ∃ p, load? d p = some f ∧ Justified d o root (ofRoot d o root).tree p := by
  obtain ⟨visits, hs⟩ := exists_searches_root d o root
  obtain ⟨v, hv, hload⟩ := hs.exists_visit_of_mem hf
  have hsub : filesOf visits ⊆ (ofRoot d o root).tree := by
    rw [tree_ofRoot hs]
    exact List.Subset.refl _
  exact ⟨v.pending, hload, hs.justified hsub (fun _ => justified_of_mem_root) v hv⟩

/-- **The search ends, and it keeps nothing without a reason.** On every disk it comes to finitely
many visits, the files that they read are the files of the tree, and no file is kept twice. To each
of them a chain of declarations leads from the root file: every module on it is compiled, their
names are the module path that the file is kept with, and the file is exported if and only if each
module can be named from the crate root where it is declared. -/
theorem ofRoot_justified (d : Disk) (o : Cfg.Options) (root : FsPath) :
    let tree := (ofRoot d o root).tree
    (∃ visits, Searches d o [] (rootIn? d root).toList visits ∧ tree = filesOf visits) ∧
      (tree.map (·.location)).Nodup ∧
      ∀ f ∈ tree, ∃ hs file dir, Chain d root (KeptIn d tree) hs file dir ∧
        d.canonical? file = some f.location ∧
        (d.readText? file).bind Syntax.SourceFile.parse? = some f.source ∧
        f.module = ModulePath.root.descend hs ∧ (∀ h ∈ hs, o.enabled h.attrs = some true) ∧
        (f.exported = true ↔ ModulePath.root.NameableAlong hs) := by
  intro tree
  obtain ⟨visits, hs⟩ := exists_searches_root d o root
  refine ⟨⟨visits, hs, tree_ofRoot hs⟩, nodup_ofRoot d o root, fun f hf => ?_⟩
  obtain ⟨p, hload, heads, hchain, hfits, henabled⟩ := justified_of_mem hf
  obtain ⟨hlocation, hsource, hmodule, hexported⟩ := load?_eq_some_iff.mp hload
  exact ⟨heads, p.file, p.childrenDir, hchain, hlocation, hsource, hmodule.trans hfits.module,
    henabled, hexported ▸ hfits.exported⟩

end ModuleTree

end EnumCatalog
