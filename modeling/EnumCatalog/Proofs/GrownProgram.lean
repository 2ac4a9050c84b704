import EnumCatalog.Proofs.Declaring
import EnumCatalog.Proofs.DiskGrowth
import EnumCatalog.Proofs.OutsideFiles
import EnumCatalog.Proofs.ScannedFiles
import EnumCatalog.Proofs.Search

/-!
# Programs from a disk that has grown

When directories have been made and a file has been written, the search for the files of a crate
finds what it found before, if each name that it looks at leads where it led before and none of them
to the file (`ModuleTree.tree_ofRoot_of_grows`). It can come out otherwise, because a name may go
through a directory that was not there, and a file that was not there is preferred to another one.

Then the same program is loaded, if the written file is no source (`Loading.programOf_of_adds`). If
it is one, it is loaded as a file without a module, and so the programs agree in the files with one
(`Loading.inTree_programOf_of_adds`).
-/

set_option autoImplicit false

namespace EnumCatalog

/-! ## 1. The search for modules -/

/-- A name leads where it led before a disk has grown, and not to what has been written. -/
structure Disk.Undisturbed (d : Disk) (a : Location) (d' : Disk) (f : FsPath) : Prop where
  canonical? : d'.canonical? f = d.canonical? f
  ne : d'.canonical? f ≠ some a

namespace ModuleTree

variable {d d' : Disk} {o : Cfg.Options} {a : Location} {root : FsPath}

/-- The search for the files of a crate looks at a name. -/
def LooksAt (d : Disk) (o : Cfg.Options) (root f : FsPath) : Prop :=
  ∃ visits, Searches d o [] (rootIn? d root).toList visits ∧ ∃ v ∈ visits, v.pending.file = f

theorem keeps_of_grows (h : d.Grows a d') : ModulePlace.Keeps (d.Undisturbed a d') d' d where
  isFile _ hf := h.isFile hf
  kept _ hkept hf := (h.isFile_eq hkept.canonical? hkept.ne).symm.trans hf

theorem load?_of_grows (h : d.Grows a d') {p : Pending} (hp : d.Undisturbed a d' p.file) :
    load? d p = load? d' p := by
  unfold load?
  rw [hp.canonical?, h.readText?_eq hp.canonical? hp.ne]

/-- Each visit was made before, and what it declares was declared. -/
theorem Searches.of_grows (h : d.Grows a d') {reached : List Location} {pending : List Pending}
    {visits : List Visit} (hs : Searches d' o reached pending visits)
    (hv : ∀ v ∈ visits, d.Undisturbed a d' v.pending.file) :
    Searches d o reached pending visits := by
  induction hs with
  | done reached => exact .done reached
  | @pass reached p rest visits hpass _ ih =>
    rw [List.forall_mem_cons] at hv
    exact .pass (fun f hf => hpass f (load?_of_grows h hv.1 ▸ hf)) (ih hv.2)
  | @read reached p rest visits f hf hnew hs ih =>
    rw [List.forall_mem_cons] at hv
    have hdeclared : declaredBy d o p f = declaredBy d' o p f := by
      unfold declaredBy
      rw [ModulePlace.declaredIn_eq_of_keeps (keeps_of_grows h)]
      -- What is declared is pending from then on, so it is visited.
      intro q hq
      have hmem : q ∈ declaredBy d' o p f ++ rest :=
        List.mem_append_left _ (List.mem_reverse.mpr hq)
      obtain ⟨v, hvmem, rfl⟩ := List.mem_map.mp (hs.sublist.subset hmem)
      exact hv.2 v hvmem
    refine .read ((load?_of_grows h hv.1).trans hf) hnew ?_
    rw [hdeclared]
    exact ih hv.2

/-- The files of the crate are the same, and what has been written is not among them. -/
theorem tree_ofRoot_of_grows (h : d.Grows a d')
    (hlooks : ∀ f, LooksAt d' o root f → d.Undisturbed a d' f) :
    (ofRoot d' o root).tree = (ofRoot d o root).tree ∧
      (ofRoot d' o root).tree.at? a = none := by
  obtain ⟨visits, hs⟩ := exists_searches_root d' o root
  have hv : ∀ v ∈ visits, d.Undisturbed a d' v.pending.file :=
    fun v hmem => hlooks _ ⟨visits, hs, v, hmem, rfl⟩
  -- The search on the grown disk is the one on the disk before: it looks at nothing that has
  -- changed.
  have hroot : rootIn? d root = rootIn? d' root := by
    refine rootIn?_eq_of_keeps (keeps_of_grows h) fun q hq => ?_
    have hmem : q ∈ (rootIn? d' root).toList := Option.mem_toList.mpr hq
    obtain ⟨v, hvmem, rfl⟩ := List.mem_map.mp (hs.sublist.subset hmem)
    exact hv v hvmem
  have hs' : Searches d o [] (rootIn? d root).toList visits := by
    rw [hroot]
    exact hs.of_grows h hv
  rw [tree_ofRoot hs, tree_ofRoot hs']
  refine ⟨rfl, ?_⟩
  rw [at?, List.find?_eq_none]
  intro f hf hloc
  obtain ⟨v, hvmem, hfile⟩ := List.mem_filterMap.mp hf
  obtain ⟨hload, -⟩ := hs.of_read hvmem hfile
  refine (hv v hvmem).ne ?_
  rw [(load?_eq_some_iff.mp hload).1, beq_iff_eq.mp hloc]

end ModuleTree

/-! ## 2. The files that are loaded -/

namespace Loading

variable {d d' : Disk} {o : Cfg.Options} {a : Location} {scanPath : FsPath}

/-- A file at a location that the crate root does not lead to is loaded without a module. -/
theorem module?_of_loadFile {tree : ModuleTree} {f : FsPath} {u : SourceUnit}
    (h : (loadFile d tree f).toOption = some u) (hout : (d.canonical? f).bind tree.at? = none) :
    u.module? = none := by
  rw [loadFile, hout] at h
  simp only at h
  split at h
  · cases h
  · split at h
    · cases h
    · rw [← Option.some.inj h]

/-- The same files are sources, but for what has been written. -/
theorem filter_locatedSources_of_adds (h : d.Adds a d') (hp : d.IsPlain)
    (hdir : d.isDirectory scanPath = true) :
    (locatedSources d' scanPath).filter (·.2 != a) =
      (locatedSources d scanPath).filter (·.2 != a) := by
  unfold locatedSources
  rw [List.filter_comm, h.located hp scanPath hdir, List.filter_comm]

/-- A source apart from what has been written is loaded as before. -/
theorem loadFile_of_adds (h : d.Adds a d') (hp : d.IsPlain) (tree : ModuleTree)
    {x : FsPath × Location} (hx : x ∈ locatedSources d scanPath) (hne : x.2 ≠ a) :
    loadFile d' tree x.1 = loadFile d tree x.1 := by
  have hold := canonical?_of_mem_locatedSources hp hx
  have hnew := h.grows.canonical?_eq hold
  have hne' : d'.canonical? x.1 ≠ some a := by
    rw [hnew, ne_eq, Option.some.injEq]
    exact hne
  have hread := h.grows.readText?_eq (hnew.trans hold.symm) hne'
  simp only [loadFile, hread, hold, hnew]

/-- The sources, without the one at a location, that are loaded with a module. -/
theorem filter_files_scan {tree : ModuleTree} (hp : d.IsPlain) (hout : tree.at? a = none)
    (scanPath : FsPath) :
    ((sourceFiles d scanPath).filterMap fun f => (loadFile d tree f).toOption).filter
        (·.module?.isSome) =
      (((locatedSources d scanPath).filter (·.2 != a)).filterMap fun x =>
        (loadFile d tree x.1).toOption).filter (·.module?.isSome) := by
  rw [← map_fst_locatedSources, List.filterMap_map]
  have hall : ∀ x ∈ locatedSources d scanPath, d.canonical? x.1 = some x.2 :=
    fun x hx => canonical?_of_mem_locatedSources hp hx
  generalize locatedSources d scanPath = xs at hall
  -- File by file: the one at the location is loaded without a module, if it can be loaded.
  induction xs with
  | nil => rfl
  | cons x xs ih =>
    rw [List.forall_mem_cons] at hall
    by_cases hx : x.2 = a
    · rw [List.filter_cons_of_neg (by simp [hx]), List.filterMap_cons]
      cases hload : ((fun f => (loadFile d tree f).toOption) ∘ Prod.fst) x with
      | none => exact ih hall.2
      | some u =>
        have hnone : u.module? = none :=
          module?_of_loadFile hload (by rw [hall.1, hx, Option.bind_some, hout])
        rw [List.filter_cons_of_neg (by simp [hnone])]
        exact ih hall.2
    · rw [List.filter_cons_of_pos (by simp [hx]), List.filterMap_cons, List.filterMap_cons]
      rw [Function.comp_apply]
      cases (loadFile d tree x.1).toOption with
      | none => exact ih hall.2
      | some u =>
        simp only [List.filter_cons]
        split
        · rw [ih hall.2]
        · exact ih hall.2

variable (h : d.Adds a d') (hp : d.IsPlain) (hdir : d.isDirectory scanPath = true)
  (hlooks : ∀ f, ModuleTree.LooksAt d' o (sourceRoot scanPath) f → d.Undisturbed a d' f)
include h hp hdir hlooks

/-- The files with a module are the same. -/
theorem filter_files_scan_of_adds :
    (scan d' o scanPath).files.filter (·.module?.isSome) =
      (scan d o scanPath).files.filter (·.module?.isSome) := by
  obtain ⟨htree, hout⟩ := ModuleTree.tree_ofRoot_of_grows h.grows hlooks
  rw [files_scan, files_scan, htree]
  rw [htree] at hout
  generalize (ModuleTree.ofRoot d o (sourceRoot scanPath)).tree = tree at hout
  rw [filter_files_scan (h.isPlain hp) hout, filter_files_scan hp hout,
    filter_locatedSources_of_adds h hp hdir]
  refine congrArg (List.filter _) (List.filterMap_congr fun x hx => ?_)
  obtain ⟨hmem, hne⟩ := List.mem_filter.mp hx
  rw [loadFile_of_adds h hp tree hmem (bne_iff_ne.mp hne)]

/-- All files are the same if what has been written is no source. -/
theorem files_scan_of_adds (hsource : ∀ f ∈ sourceFiles d' scanPath, d'.canonical? f ≠ some a) :
    (scan d' o scanPath).files = (scan d o scanPath).files := by
  obtain ⟨htree, -⟩ := ModuleTree.tree_ofRoot_of_grows h.grows hlooks
  obtain ⟨root, hroot, -⟩ := Disk.isDirectory_iff.mp hdir
  have hnew : ∀ x ∈ locatedSources d' scanPath, x.2 ≠ a := by
    rintro ⟨f, m⟩ hx rfl
    obtain ⟨g, hg, hm⟩ := (exists_mem_locatedSources_iff (h.isPlain hp)).mpr ⟨f, hx⟩
    exact hsource g hg hm
  -- Where a source was before, there is one still.
  have hold : ∀ x ∈ locatedSources d scanPath, x.2 ≠ a := by
    rintro ⟨f, m⟩ hx rfl
    obtain ⟨above, name, c, hm, hnode, hends⟩ := (exists_mem_sourceFiles_iff hp hroot hdir).mp
      ((exists_mem_locatedSources_iff hp).mpr ⟨f, hx⟩)
    obtain ⟨c', hc'⟩ := h.grows.sight?_file (c := c) (by rw [Disk.sight?, hnode]; rfl)
    have hnode' : ∃ c, d'.nodeAt? m = some (.file c) := by
      obtain ⟨n, hn, hsight⟩ := Option.map_eq_some_iff.mp hc'
      cases n with
      | file c => exact ⟨c, hn⟩
      | directory es => cases hsight
      | link target => cases hsight
    obtain ⟨c', hnode'⟩ := hnode'
    obtain ⟨g, hg, hl⟩ := (exists_mem_sourceFiles_iff (h.isPlain hp) (h.grows.canonical?_eq hroot)
      (h.grows.isDirectory hdir)).mpr ⟨above, name, c', hm, hnode', hends⟩
    exact hsource g hg hl
  have hsame := filter_locatedSources_of_adds h hp hdir
  rw [List.filter_eq_self.mpr fun x hx => bne_iff_ne.mpr (hnew x hx),
    List.filter_eq_self.mpr fun x hx => bne_iff_ne.mpr (hold x hx)] at hsame
  rw [files_scan, files_scan, htree, ← map_fst_locatedSources, ← map_fst_locatedSources, hsame,
    List.filterMap_map, List.filterMap_map]
  refine List.filterMap_congr fun x hx => ?_
  rw [Function.comp_apply, Function.comp_apply, loadFile_of_adds h hp _ hx (hold x hx)]

end Loading

/-! ## 3. The program -/

namespace Loading

variable {d d' : Disk} {o : Cfg.Options} {a : Location} {scanPaths : List FsPath}
  (h : d.Adds a d') (hp : d.IsPlain) (hdirs : ∀ s ∈ scanPaths, d.isDirectory s = true)
  (hlooks : ∀ s ∈ scanPaths, ∀ f, ModuleTree.LooksAt d' o (sourceRoot s) f → d.Undisturbed a d' f)
include h hp hdirs hlooks

theorem inTree_programOf_of_adds :
    (programOf d' o scanPaths).inTree = (programOf d o scanPaths).inTree := by
  unfold programOf Program.inTree
  congr 1
  rw [List.filter_flatMap, List.filter_flatMap]
  exact List.flatMap_congr fun s hs =>
    filter_files_scan_of_adds h hp (hdirs s hs) (hlooks s hs)

theorem programOf_of_adds
    (hsource : ∀ s ∈ scanPaths, ∀ f ∈ sourceFiles d' s, d'.canonical? f ≠ some a) :
    programOf d' o scanPaths = programOf d o scanPaths := by
  unfold programOf
  congr 1
  exact List.flatMap_congr fun s hs =>
    files_scan_of_adds h hp (hdirs s hs) (hlooks s hs) (hsource s hs)

end Loading

end EnumCatalog
