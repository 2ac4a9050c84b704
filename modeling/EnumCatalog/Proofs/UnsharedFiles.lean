import EnumCatalog.Proofs.ModuleChain

/-!
# Files that are no other module's

The search for the files of a crate keeps each file for one module. If several declarations lead to
a file, the one that is looked at first has it, and the modules of the others are missing. So a
chain of declarations leads to a module of the crate if none of the files on it is *shared*: every
chain through files that the search keeps, by which one comes to the same file, ends at the same
module (`ModuleTree.Unshared`). The root file may be declared as often as one likes, because it is
read before all others.

Along a chain of unshared files every declaration is visited (`Searches.exists_visit`), and each of
the files is kept as the module that the chain says (`exists_kept_of_unshared`).
-/

set_option autoImplicit false

namespace EnumCatalog

open Syntax (Item ModuleHead SourceFile)

namespace ModuleTree

variable {d : Disk} {o : Cfg.Options} {root : FsPath} {tree : ModuleTree}

/-! ## 1. Unshared files -/

/-- A file can be read, wherever a chain leads to it. -/
abbrev Reads (d : Disk) (_hs : List ModuleHead) (file _dir : FsPath) (source : SourceFile) : Prop :=
  (d.readText? file).bind Syntax.SourceFile.parse? = some source

/-- The file at the end of a chain can be read, and unless it is the root file, every chain of
modules that are compiled, by which one comes to this file through files of the tree, ends at the
same module in the same directories. -/
structure Unshared (d : Disk) (o : Cfg.Options) (root : FsPath) (tree : ModuleTree)
    (hs : List ModuleHead) (file dir : FsPath) (source : SourceFile) : Prop where
  reads : Reads d hs file dir source
  same : hs ≠ [] → ∀ hs' file' dir', Chain d root (KeptIn d tree) hs' file' dir' →
    (∀ h ∈ hs', o.enabled h.attrs = some true) → d.canonical? file' = d.canonical? file →
    ModulePath.root.descend hs' = ModulePath.root.descend hs ∧
      (ModulePath.root.NameableAlong hs' ↔ ModulePath.root.NameableAlong hs) ∧
      file'.directory = file.directory ∧ dir' = dir

/-- A visit to a module of a chain: the file is looked for in the same directories. -/
structure Visit.IsOf (v : Visit) (hs : List ModuleHead) (file dir : FsPath) : Prop where
  fits : Fits v.pending hs
  directory : v.pending.file.directory = file.directory
  childrenDir : v.pending.childrenDir = dir

/-- The root file is the first to be read. -/
theorem Searches.exists_root_read {visits : List Visit} {p : Pending} {f : TreeFile}
    (hs : Searches d o [] [p] visits) (hload : load? d p = some f) :
    ∃ v ∈ visits, v.pending = p ∧ v.file? = some f := by
  cases hs with
  | pass hpass _ => exact absurd (hpass f hload) List.not_mem_nil
  | read hf _ _ =>
    obtain rfl := Option.some.inj (hload.symm.trans hf)
    exact ⟨_, List.mem_cons_self, rfl, rfl⟩

/-- What a declaration at a site names is declared by the file, if everything is compiled. -/
theorem exists_mem_declaredBy {p : Pending} {f : TreeFile} {hs : List ModuleHead} {s : Site}
    {h : ModuleHead} {base file dir : FsPath} (hp : Fits p hs) (hbase : p.file.directory = base)
    (hfill : s.fill [.fileModule h] = f.source.items)
    (henabled : ∀ g ∈ s.heads ++ [h], o.enabled g.attrs = some true)
    (hnames : NamesFile d (if s.heads = [] then base else directoryOf p.childrenDir s.heads)
      (directoryOf p.childrenDir s.heads) h file dir) :
    ∃ q ∈ declaredBy d o p f, q.file = file ∧ q.childrenDir = dir ∧
      Fits q (hs ++ (s.heads ++ [h])) := by
  subst hbase
  have hplace : NamesFile d ((ModulePlace.ofPending p).descend s.heads).baseDir
      ((ModulePlace.ofPending p).descend s.heads).childrenDir h file dir := by
    rw [ModulePlace.baseDir_descend, ModulePlace.childrenDir_descend]
    exact hnames
  obtain ⟨hfile, hdir⟩ := ModulePlace.namesFile_iff.mp hplace
  refine ⟨_, ?_, hfile, hdir, hp.pendingOf s.heads h⟩
  simp only [← ModulePlace.isEnabled_iff, List.forall_mem_append,
    List.forall_mem_singleton] at henabled
  rw [mem_declaredBy_iff, ← hfill, ModulePlace.declaredIn_fill _ henabled.1,
    ModulePlace.declaredIn_singleton, ModulePlace.declared, if_pos henabled.2]
  exact List.mem_append_left _ (List.mem_append_right _ (List.mem_singleton_self _))

theorem rootIn?_of_lib (hfile : d.isFile (root.join ⟨"lib.rs"⟩) = true) :
    rootIn? d root = some ⟨root.join ⟨"lib.rs"⟩, .root, true, root⟩ := by
  simp [rootIn?, rootNames, hfile]

theorem rootIn?_of_main (hlib : d.isFile (root.join ⟨"lib.rs"⟩) = false)
    (hfile : d.isFile (root.join ⟨"main.rs"⟩) = true) :
    rootIn? d root = some ⟨root.join ⟨"main.rs"⟩, .root, true, root⟩ := by
  simp [rootIn?, rootNames, hlib, hfile]

/-- A chain without modules ends at the root file. -/
theorem rootIn?_of_chain {holds : List ModuleHead → FsPath → FsPath → SourceFile → Prop}
    {hs : List ModuleHead} {file dir : FsPath} (hchain : Chain d root holds hs file dir)
    (hnil : hs = []) : rootIn? d root = some ⟨file, .root, true, dir⟩ := by
  cases hchain with
  | lib hfile => exact rootIn?_of_lib hfile
  | main hlib hfile => exact rootIn?_of_main hlib hfile
  | declared _ _ _ _ =>
    obtain ⟨-, hnil⟩ := List.append_eq_nil_iff.mp hnil
    exact absurd (List.append_eq_nil_iff.mp hnil).2 (List.cons_ne_nil _ _)

/-! ## 2. The modules of a chain -/

section

variable {visits : List Visit} (hsearch : Searches d o [] (rootIn? d root).toList visits)

include hsearch

/-- An unshared file to which a visit comes is read for the module at the end of the chain. -/
theorem Searches.exists_read_of_unshared
    {holds : List ModuleHead → FsPath → FsPath → SourceFile → Prop} {hs : List ModuleHead}
    {file dir : FsPath} {source : SourceFile} (hchain : Chain d root holds hs file dir)
    (hfile : Unshared d o root (filesOf visits) hs file dir source)
    {v : Visit} (hv : v ∈ visits) (heq : v.pending.file = file) :
    ∃ w ∈ visits, ∃ f, w.file? = some f ∧ d.canonical? file = some f.location ∧
      f.source = source ∧ w.IsOf hs file dir := by
  obtain ⟨l, hl⟩ : ∃ l, d.canonical? file = some l := by
    obtain ⟨text, htext, -⟩ := Option.bind_eq_some_iff.mp hfile.reads
    rw [Disk.readText?_eq] at htext
    obtain ⟨l, hl, -⟩ := Option.bind_eq_some_iff.mp htext
    exact ⟨l, hl⟩
  by_cases hnil : hs = []
  · subst hnil
    have hroot := rootIn?_of_chain hchain rfl
    rw [hroot, Option.toList_some] at hsearch
    have hload : load? d ⟨file, .root, true, dir⟩ = some ⟨l, .root, true, source⟩ :=
      load?_eq_some_iff.mpr ⟨hl, hfile.reads, rfl, rfl⟩
    obtain ⟨w, hw, hp, hread⟩ := hsearch.exists_root_read hload
    refine ⟨w, hw, _, hread, hl, rfl, ?_, by rw [hp], by rw [hp]⟩
    rw [hp]
    exact fits_root _ _
  · -- The visit that reads the file has come by a chain of its own.
    have hload : load? d v.pending = some ⟨l, v.pending.module, v.pending.exported, source⟩ :=
      load?_eq_some_iff.mpr ⟨heq ▸ hl, heq ▸ hfile.reads, rfl, rfl⟩
    obtain ⟨w, hw, f, hread, hloc⟩ := (hsearch.exists_read hv hload).resolve_left List.not_mem_nil
    obtain ⟨hloaded, -⟩ := hsearch.of_read hw hread
    obtain ⟨hs', hchain', hfits, henabled⟩ :=
      hsearch.justified (List.Subset.refl _) (fun _ => justified_of_mem_root) w hw
    have hcanon : d.canonical? w.pending.file = d.canonical? file := by
      rw [hl, (load?_eq_some_iff.mp hloaded).1, hloc]
    obtain ⟨hmodule, hnameable, hdirectory, hdir⟩ :=
      hfile.same hnil hs' _ _ hchain' henabled hcanon
    have hsource : f.source = source := by
      have hagain := load?_of_canonical? hloaded (q := v.pending) (by rw [heq, hl, hloc])
      rw [hload, Option.some.injEq, TreeFile.mk.injEq] at hagain
      exact hagain.2.2.2.symm
    refine ⟨w, hw, f, hread, by rw [hl, hloc], hsource, ⟨?_, ?_⟩, hdirectory, hdir⟩
    · rw [hfits.module, hmodule]
    · rw [hfits.exported, hnameable]

/-- Along a chain of unshared files, every declaration is visited. -/
theorem Searches.exists_visit {hs : List ModuleHead} {file dir : FsPath}
    (hchain : Chain d root (Unshared d o root (filesOf visits)) hs file dir)
    (henabled : ∀ h ∈ hs, o.enabled h.attrs = some true) :
    ∃ v ∈ visits, v.pending.file = file := by
  have visited {p : Pending} (hp : p ∈ visits.map (·.pending)) :
      ∃ v ∈ visits, v.pending.file = p.file := by
    obtain ⟨v, hv, rfl⟩ := List.mem_map.mp hp
    exact ⟨v, hv, rfl⟩
  have atRoot {file : FsPath} (hroot : rootIn? d root = some ⟨file, .root, true, root⟩) :
      ∃ v ∈ visits, v.pending.file = file := by
    refine visited (p := ⟨file, .root, true, root⟩) (hsearch.sublist.subset ?_)
    rw [hroot]
    exact List.mem_singleton_self _
  induction hchain with
  | lib hfile => exact atRoot (rootIn?_of_lib hfile)
  | main hlib hfile => exact atRoot (rootIn?_of_main hlib hfile)
  | @declared hs file dir file' dir' source s h hchain hunshared hfill hnames ih =>
    rw [List.forall_mem_append] at henabled
    obtain ⟨v, hv, heq⟩ := ih henabled.1
    obtain ⟨w, hw, f, hread, -, hsource, hof⟩ :=
      hsearch.exists_read_of_unshared hchain hunshared hv heq
    -- It is read in the directories from which the declaration names its file.
    rw [← hof.childrenDir] at hnames
    obtain ⟨q, hq, hfile', -, -⟩ :=
      exists_mem_declaredBy hof.fits hof.directory (hsource ▸ hfill) henabled.2 hnames
    rw [← hfile']
    refine visited (hsearch.perm.symm.subset (List.mem_append_right _ ?_))
    refine List.mem_flatMap.mpr ⟨w, hw, ?_⟩
    rw [Visit.declares, hread]
    exact hq

end

/-- **A file that no other module has is kept.** The search reads it, and it is the module that the
chain of declarations says. -/
theorem exists_kept_of_unshared {hs : List ModuleHead} {file dir : FsPath} {source : SourceFile}
    (hchain : Chain d root (Unshared d o root (ofRoot d o root).tree) hs file dir)
    (hfile : Unshared d o root (ofRoot d o root).tree hs file dir source)
    (henabled : ∀ h ∈ hs, o.enabled h.attrs = some true) :
    ∃ f ∈ (ofRoot d o root).tree, d.canonical? file = some f.location ∧ f.source = source ∧
      f.module = ModulePath.root.descend hs ∧
      (f.exported = true ↔ ModulePath.root.NameableAlong hs) := by
  obtain ⟨visits, hsearch⟩ := exists_searches_root d o root
  have htree := tree_ofRoot hsearch
  rw [htree] at hchain hfile ⊢
  obtain ⟨v, hv, heq⟩ := hsearch.exists_visit hchain henabled
  obtain ⟨w, hw, f, hread, hlocation, hsource, hof⟩ :=
    hsearch.exists_read_of_unshared hchain hfile hv heq
  obtain ⟨-, -, hmodule, hexported⟩ := load?_eq_some_iff.mp (hsearch.of_read hw hread).1
  refine ⟨f, List.mem_filterMap.mpr ⟨w, hw, hread⟩, hlocation, hsource, ?_, ?_⟩
  · rw [hmodule, hof.fits.module]
  · rw [hexported, hof.fits.exported]

/-! ## 3. How to tell -/

/-- Modules that are closed under declarations: the root is among them, and so is each module that
the file of one of them declares, if the tree has the file as that module. -/
structure Closed (d : Disk) (o : Cfg.Options) (root : FsPath) (tree : ModuleTree)
    (ps : List Pending) : Prop where
  root : ∀ p ∈ (rootIn? d root).toList, p ∈ ps
  declared : ∀ p ∈ ps, ∀ f ∈ tree, d.canonical? p.file = some f.location → f.module = p.module →
    ∀ q ∈ declaredBy d o p f, q ∈ ps

/-- A chain through files of the tree stays among such modules. -/
theorem Closed.exists_mem {ps : List Pending} (hclosed : Closed d o root tree ps)
    {hs : List ModuleHead} {file dir : FsPath} (hchain : Chain d root (KeptIn d tree) hs file dir)
    (henabled : ∀ h ∈ hs, o.enabled h.attrs = some true) :
    ∃ p ∈ ps, p.file = file ∧ p.childrenDir = dir ∧ Fits p hs := by
  have atRoot {file : FsPath} (hroot : rootIn? d root = some ⟨file, .root, true, root⟩) :
      ∃ p ∈ ps, p.file = file ∧ p.childrenDir = root ∧ Fits p [] := by
    refine ⟨⟨file, .root, true, root⟩, hclosed.root _ ?_, rfl, rfl, fits_root _ _⟩
    rw [hroot]
    exact List.mem_singleton_self _
  induction hchain with
  | lib hfile => exact atRoot (rootIn?_of_lib hfile)
  | main hlib hfile => exact atRoot (rootIn?_of_main hlib hfile)
  | @declared hs file dir file' dir' source s h _ hkept hfill hnames ih =>
    rw [List.forall_mem_append] at henabled
    obtain ⟨p, hp, rfl, rfl, hfits⟩ := ih henabled.1
    obtain ⟨f, hf, hlocation, hmodule, rfl⟩ := hkept
    obtain ⟨q, hq, hq'⟩ := exists_mem_declaredBy hfits rfl hfill henabled.2 hnames
    exact ⟨q, hclosed.declared p hp f hf hlocation (hmodule.trans hfits.module.symm) q hq, hq'⟩

/-- A file is unshared if only one of such modules leads to it. -/
theorem Closed.unshared {ps : List Pending} (hclosed : Closed d o root tree ps) {p : Pending}
    {hs : List ModuleHead} {source : SourceFile} (hfits : Fits p hs)
    (halone : ∀ q ∈ ps, d.canonical? q.file = d.canonical? p.file → q = p)
    (hreads : Reads d hs p.file p.childrenDir source) :
    Unshared d o root tree hs p.file p.childrenDir source := by
  refine ⟨hreads, fun _ hs' file' dir' hchain henabled hcanon => ?_⟩
  obtain ⟨q, hq, rfl, rfl, hfits'⟩ := hclosed.exists_mem hchain henabled
  obtain rfl := halone q hq hcanon
  refine ⟨?_, ?_, rfl, rfl⟩
  · rw [← hfits'.module, hfits.module]
  · rw [← hfits'.exported, hfits.exported]

end ModuleTree

end EnumCatalog
