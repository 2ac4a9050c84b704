import EnumCatalog.Proofs.Excerpt
import EnumCatalog.Proofs.Registering
import EnumCatalog.Proofs.SameDirectory

/-!
# Scanning a subdirectory

A directory below that of the sources may be scanned by itself. Which modules the files are does not
depend on it: from either directory the same source root is found
(`Disk.Overlap.sameDirectory_sourceRoot`), and the tree of modules is made from there. A walk comes
to the files of the subdirectory one after the other (`Disk.exists_locatedIn_below`), and leaves out
the same of them. So what is loaded is an excerpt of what is loaded from the directory of the sources
(`Subdirectory.exists_excerpt`).

But it is a program of its own. Names that files outside give to the marker are not known in it, and
whether the marker's crate is mentioned outside makes no difference. Hence a generation finds the
enums of the subdirectory if its files do not look outside, and otherwise under an exact condition
only (`Generator.generate_subdirectory`).
-/

set_option autoImplicit false

namespace EnumCatalog

open Syntax (Item Enum ModuleHead)

/-! ## 1. Names of directories -/

namespace FsPath

/-- The name ends in that of an entry, without a slash behind it. -/
def EndsIn (p : FsPath) (name : String) : Prop :=
  p.text.toList = name.toList ∨ ∃ front, p.text.toList = front ++ '/' :: name.toList

/-- The directory that entries lead to from a directory on. -/
def below (p : FsPath) : List String → FsPath
  | [] => p
  | n :: ns => (p.join ⟨n⟩).below ns

/-- A name of a directory may have a slash at its end. -/
def Spells (p dir : FsPath) : Prop := p = dir ∨ p = ⟨dir.text ++ "/"⟩

variable {p dir : FsPath} {name : String} {names : List String}

/-! ### Names that end in an entry's -/

theorem EndsIn.text_ne (h : p.EndsIn name) (hname : IsEntryName name) : p.text ≠ "" := by
  intro hempty
  rcases h with h | ⟨front, h⟩
  · rw [hempty] at h
    exact hname.1 (String.toList_inj.mp h).symm
  · rw [hempty] at h
    exact absurd h (by simp)

theorem EndsIn.getLast? (h : p.EndsIn name) (hname : IsEntryName name) :
    p.text.toList.getLast? ≠ some '/' := by
  have hne : name.toList ≠ [] := mt String.toList_eq_nil_iff.mp hname.1
  have hlast : p.text.toList.getLast? = name.toList.getLast? := by
    rcases h with h | ⟨front, h⟩
    · rw [h]
    · rw [h, List.getLast?_append_of_ne_nil _ (List.cons_ne_nil _ _), List.getLast?_cons,
        List.getLast?_eq_getLast_of_ne_nil hne]
      rfl
  rw [hlast]
  exact fun h => hname.2.2.2 (List.mem_of_getLast? h)

theorem endsIn_join (hdir : dir.text ≠ "") (hname : IsEntryName name) :
    (dir.join ⟨name⟩).EndsIn name := by
  obtain ⟨-, front, hfront, -⟩ := text_join hdir hname.2.2.2
  exact .inr ⟨front, hfront⟩

theorem EndsIn.exists_below (h : p.EndsIn name) (hname : IsEntryName name)
    (hnames : ∀ n ∈ names, IsEntryName n) :
    ∃ last, IsEntryName last ∧ (p.below names).EndsIn last := by
  induction names generalizing p name with
  | nil => exact ⟨name, hname, h⟩
  | cons n ns ih =>
    obtain ⟨hn, hns⟩ := List.forall_mem_cons.mp hnames
    exact ih (endsIn_join (h.text_ne hname) hn) hn hns

/-! ### Slashes at the end -/

theorem Spells.parts_eq (hdir : dir.text ≠ "") (h : p.Spells dir) : p.parts = dir.parts := by
  rcases h with rfl | rfl
  · rfl
  · have hsplit : split (dir.text ++ "/").toList =
        ((split dir.text.toList).1, (split dir.text.toList).2 ++ ['/']) := by
      rw [String.toList_append]
      exact split_append_slash (mt String.toList_eq_nil_iff.mp hdir) []
    unfold parts
    simp only [hsplit]
    simp [pieces_append_slash, pieces, isFiller]

/-- What is in a directory is called the same, whether or not there is a slash. -/
theorem Spells.join_eq (h : p.Spells dir) (hends : dir.EndsIn name) (hname : IsEntryName name)
    (q : FsPath) : p.join q = dir.join q := by
  rcases h with rfl | rfl
  · rfl
  · have hempty : dir.text.isEmpty = false :=
      String.isEmpty_eq_false_iff.mpr (hends.text_ne hname)
    have hlast : (dir.text.toList.getLast? == some '/') = false :=
      beq_eq_false_iff_ne.mpr (hends.getLast? hname)
    have hslash : (dir.text ++ "/").isEmpty = false :=
      String.isEmpty_eq_false_iff.mpr (by simp)
    unfold join
    rw [hempty, hlast, hslash]
    simp

theorem parts_below (hp : p.text ≠ "") (hnames : ∀ n ∈ names, IsEntryName n) :
    (p.below names).parts = p.parts ++ names.map .name := by
  induction names generalizing p with
  | nil => simp [below]
  | cons n ns ih =>
    obtain ⟨hn, hns⟩ := List.forall_mem_cons.mp hnames
    rw [below, ih (text_join_ne hp hn) hns, parts_join hp hn, List.append_assoc,
      List.singleton_append, List.map_cons]

/-! ### Steps -/

theorem EndsIn.mem_steps (h : p.EndsIn name) (hname : IsEntryName name) : name ∈ p.steps := by
  have hlast := steps_entryName hname
  rw [steps] at hlast ⊢
  rcases h with h | ⟨front, h⟩
  · rw [h, hlast]
    exact List.mem_singleton_self name
  · rw [h, stepsIn_append_slash, hlast]
    exact List.mem_append_right _ (List.mem_singleton_self name)

theorem Spells.steps_eq (h : p.Spells dir) : p.steps = dir.steps := by
  rcases h with rfl | rfl
  · rfl
  · have htext : (dir.text ++ "/").toList = dir.text.toList ++ ['/'] := by simp
    rw [steps, htext, stepsIn_append_slash, stepsIn_nil, List.append_nil, steps]

theorem steps_below (hp : p.text ≠ "") (hnames : ∀ n ∈ names, IsEntryName n) :
    (p.below names).steps = p.steps ++ names := by
  induction names generalizing p with
  | nil => rw [below, List.append_nil]
  | cons n ns ih =>
    obtain ⟨hn, hns⟩ := List.forall_mem_cons.mp hnames
    rw [below, ih (text_join_ne hp hn) hns, steps_join hp (isAbsolute_of_not_mem hn.2.2.2),
      steps_entryName hn, List.append_assoc, List.singleton_append]

theorem isEntryName_src : IsEntryName "src" := ⟨by decide, by decide, by decide, by decide⟩

end FsPath

/-! ## 2. Directories on a disk -/

namespace Disk

variable {d : Disk} {p root : FsPath} {name : String} {names : List String} {l k : Location}

theorem exists_of_isDirectory (h : d.isDirectory p = true) :
    ∃ l es, d.canonical? p = some l ∧ d.nodeAt? l = some (.directory es) := by
  cases hl : d.canonical? p with
  | none => simp [isDirectory, get?, hl] at h
  | some l =>
    obtain ⟨es, hes⟩ := exists_entries_of_isDirectory hl h
    exact ⟨l, es, rfl, hes⟩

/-- The files of a directory are called by names that are made up from its own. -/
theorem locatedIn_congr {dir dir' : FsPath} (h : ∀ q, dir.join q = dir'.join q) (l : Location)
    (es : Entries) : locatedIn dir l es = locatedIn dir' l es := by
  induction es with
  | nil => rw [locatedIn, locatedIn]
  | cons e es ih =>
    obtain ⟨name, n⟩ := e
    rw [locatedIn, locatedIn, h, ih]

/-- The files of a directory below are some of the files, one after the other. -/
theorem exists_locatedIn_below (dir : FsPath) (l : Location) {es es' : Entries}
    (h : es.nodeAt? names = some (.directory es')) : ∃ as bs, locatedIn dir l es =
      as ++ locatedIn (dir.below names) (l ++ names) es' ++ bs := by
  induction names generalizing dir l es with
  | nil =>
    rw [Entries.nodeAt?, Option.some.injEq, Node.directory.injEq] at h
    exact ⟨[], [], by simp [h, FsPath.below]⟩
  | cons n ns ih =>
    rw [Entries.nodeAt?_cons, Option.bind_eq_some_iff] at h
    obtain ⟨inner, hget, hat⟩ := h
    obtain ⟨before, after, rfl⟩ := Entries.exists_split_of_get? hget
    cases inner with
    | directory inner =>
      rw [Entries.at?_directory] at hat
      obtain ⟨as, bs, heq⟩ := ih (dir.join ⟨n⟩) (l ++ [n]) hat
      rw [List.append_assoc l, List.singleton_append] at heq
      refine ⟨locatedIn dir l before ++ as, bs ++ locatedIn dir l after, ?_⟩
      rw [locatedIn_append, locatedIn, locatedAt, heq, FsPath.below]
      simp only [List.append_assoc]
    | _ => cases ns <;> cases hat

/-- What is listed apart from a directory is called by other names, because a name that is listed
twice would lead to two locations. -/
theorem not_mem_filesUnder_of_located_eq (hp : d.IsPlain) {src dir : FsPath}
    {as bs : List (FsPath × Location)} (h : d.located src = as ++ d.located dir ++ bs)
    {x : FsPath × Location} (hx : x ∈ as ++ bs) : x.1 ∉ d.filesUnder dir := by
  obtain ⟨f, m⟩ := x
  intro hunder
  rw [← map_fst_located] at hunder
  obtain ⟨⟨_, k⟩, hk, rfl⟩ := List.mem_map.mp hunder
  have hperm : (d.located src).Perm (as ++ bs ++ d.located dir) := by
    rw [h, List.append_assoc, List.append_assoc]
    exact List.perm_append_comm.append_left as
  have hmem := hperm.mem_iff.mpr (List.mem_append_left (d.located dir) hx)
  have hcanon := canonical?_of_mem_located hp hmem
  obtain rfl := Option.some.inj (hcanon.symm.trans (canonical?_of_mem_located hp hk))
  have hnodup := (hperm.map Prod.snd).nodup_iff.mp (nodup_located hp src)
  rw [List.map_append, List.nodup_append] at hnodup
  exact hnodup.2.2 m (List.mem_map_of_mem hx) m (List.mem_map_of_mem hk) rfl

end Disk

/-! ## 3. Loading -/

/-- A directory of sources and one below it, both to be scanned. Each is called by its name, with or
without a slash at its end. No directory on the way from the one to the other is called as another
directory of sources would be, or as those that are left out. -/
structure Subdirectory (d : Disk) (src dir : FsPath) where
  root : FsPath
  names : List String
  endsIn : root.EndsIn "src"
  isEntryName : ∀ n ∈ names, IsEntryName n
  avoids : ∀ n ∈ names, n ∉ ["generated", "target", "src"]
  src_spells : src.Spells root
  dir_spells : dir.Spells (root.below names)
  src_isDirectory : d.isDirectory src = true
  dir_isDirectory : d.isDirectory dir = true

namespace Subdirectory

variable {d : Disk} {src dir : FsPath} (w : Subdirectory d src dir)
include w

theorem steps_eq : dir.steps = src.steps ++ w.names := by
  rw [w.dir_spells.steps_eq, w.src_spells.steps_eq,
    FsPath.steps_below (w.endsIn.text_ne FsPath.isEntryName_src) w.isEntryName]

/-- The one below is at the location that goes on by the names. -/
theorem eq_append (hp : d.IsPlain) {l k : Location} (hl : d.canonical? src = some l)
    (hk : d.canonical? dir = some k) : k = l ++ w.names := by
  have hlead := Disk.lead?_of_canonical? hp hl (Disk.view_of_isDirectory w.src_isDirectory hl)
  have hlead' := Disk.lead?_of_canonical? hp hk (Disk.view_of_isDirectory w.dir_isDirectory hk)
  rw [w.steps_eq, Disk.lead?_append, hlead, Option.bind_some] at hlead'
  exact Disk.eq_append_of_lead? (fun h => (w.isEntryName _ h).2.2.1 rfl) hlead'

theorem overlap (hp : d.IsPlain) : d.Overlap src dir where
  isDirectory := w.src_isDirectory
  isDirectory_inner := w.dir_isDirectory
  src_mem := by
    rw [w.src_spells.steps_eq]
    exact w.endsIn.mem_steps FsPath.isEntryName_src
  goesOn := ⟨w.names, w.steps_eq, w.avoids⟩
  below := by
    obtain ⟨l, -, hl, -⟩ := Disk.exists_of_isDirectory w.src_isDirectory
    obtain ⟨k, -, hk, -⟩ := Disk.exists_of_isDirectory w.dir_isDirectory
    exact ⟨l, w.names, hl, w.eq_append hp hl hk ▸ hk⟩

/-- Both belong to the same crate. -/
theorem tree_eq (hp : d.IsPlain) (o : Cfg.Options) :
    ModuleTree.ofRoot d o (Loading.sourceRoot src) =
      ModuleTree.ofRoot d o (Loading.sourceRoot dir) :=
  ModuleTree.ofRoot_eq_of_sameDirectory hp ((w.overlap hp).sameDirectory_sourceRoot hp)

/-- The files below are some of all files, one after the other. -/
theorem exists_located_eq (hp : d.IsPlain) :
    ∃ as bs, d.located src = as ++ d.located dir ++ bs := by
  obtain ⟨last, hlast, hends⟩ := w.endsIn.exists_below FsPath.isEntryName_src w.isEntryName
  obtain ⟨l, es, hl, hes⟩ := Disk.exists_of_isDirectory w.src_isDirectory
  obtain ⟨k, es', hk, hes'⟩ := Disk.exists_of_isDirectory w.dir_isDirectory
  obtain rfl := w.eq_append hp hl hk
  have hinner : Entries.nodeAt? es w.names = some (.directory es') := by
    rw [Disk.nodeAt?_append, hes, Option.bind_some, Entries.at?_directory] at hes'
    exact hes'
  obtain ⟨as, bs, heq⟩ := Disk.exists_locatedIn_below w.root l hinner
  refine ⟨as, bs, ?_⟩
  rw [Disk.located_eq hl hes, Disk.located_eq hk hes', Disk.locatedAt, Disk.locatedAt,
    Disk.locatedIn_congr (w.src_spells.join_eq w.endsIn FsPath.isEntryName_src),
    Disk.locatedIn_congr (w.dir_spells.join_eq hends hlast), heq]

/-- Below, the same files are left out. -/
theorem isExcluded_eq (hp : d.IsPlain) {x : FsPath × Location} (hx : x ∈ d.located dir) :
    Loading.isExcluded src x.1 = Loading.isExcluded dir x.1 := by
  obtain ⟨k, es, hk, hes⟩ := Disk.exists_of_isDirectory w.dir_isDirectory
  have hplain := Entries.IsPlain.nodeAt? hp hes
  rw [Node.IsPlain] at hplain
  rw [Disk.located_eq hk hes, Disk.locatedAt] at hx
  obtain ⟨rest, -, hparts, -⟩ :=
    Disk.parts_of_mem_locatedIn hplain (Disk.text_ne_of_canonical? hk) hx
  obtain ⟨last, hlast, hends⟩ := w.endsIn.exists_below FsPath.isEntryName_src w.isEntryName
  have hroot := w.endsIn.text_ne FsPath.isEntryName_src
  have hdir : dir.parts = src.parts ++ w.names.map .name := by
    rw [w.dir_spells.parts_eq (hends.text_ne hlast), w.src_spells.parts_eq hroot,
      FsPath.parts_below hroot w.isEntryName]
  have hsrc : x.1.parts = src.parts ++ (w.names ++ rest).map .name := by
    rw [hparts, hdir, List.map_append, List.append_assoc]
  have hnames : "generated" ∉ w.names ∧ "target" ∉ w.names :=
    ⟨fun h => w.avoids _ h (by simp), fun h => w.avoids _ h (by simp)⟩
  have hiff : Loading.isExcluded src x.1 = false ↔ Loading.isExcluded dir x.1 = false := by
    rw [Loading.isExcluded_eq_false_iff hsrc, Loading.isExcluded_eq_false_iff hparts,
      List.mem_append, List.mem_append, or_iff_right hnames.1, or_iff_right hnames.2]
  rwa [← Bool.not_eq_true, ← Bool.not_eq_true, not_iff_not, ← Bool.eq_iff_iff] at hiff

/-- The sources below are some of all sources, one after the other, and those before and after are
called by other names. -/
theorem exists_sourceFiles_eq (hp : d.IsPlain) : ∃ as bs,
    Loading.sourceFiles d src = as ++ Loading.sourceFiles d dir ++ bs ∧
      ∀ f ∈ as ++ bs, f ∉ d.filesUnder dir := by
  obtain ⟨as, bs, hlocated⟩ := w.exists_located_eq hp
  let isSource : FsPath × Location → Bool := fun x =>
    x.1.extension? == some "rs" && !Loading.isExcluded src x.1
  have hmiddle : (d.located dir).filter isSource = Loading.locatedSources d dir := by
    refine List.filter_congr fun x hx => ?_
    show (_ && !Loading.isExcluded src x.1) = _
    rw [w.isExcluded_eq hp hx]
  refine ⟨(as.filter isSource).map Prod.fst, (bs.filter isSource).map Prod.fst, ?_, ?_⟩
  · have hsources : Loading.locatedSources d src = (d.located src).filter isSource := rfl
    rw [← Loading.map_fst_locatedSources, ← Loading.map_fst_locatedSources, hsources, hlocated,
      List.filter_append, List.filter_append, hmiddle, List.map_append, List.map_append]
  · intro f hf
    rw [← List.map_append, ← List.filter_append] at hf
    obtain ⟨x, hx, rfl⟩ := List.mem_map.mp hf
    exact Disk.not_mem_filesUnder_of_located_eq hp hlocated (List.mem_of_mem_filter hx)

/-- What is loaded from a subdirectory is a run of the files of the crate, each as the module that it
is in the crate. -/
theorem exists_excerpt (hp : d.IsPlain) (o : Cfg.Options) : ∃ t : Excerpt,
    t.IsOf (Loading.program d o src) (Loading.program d o dir) (d.filesUnder dir) := by
  obtain ⟨as, bs, hsources, hother⟩ := w.exists_sourceFiles_eq hp
  let load (f : FsPath) : Option SourceUnit :=
    (Loading.loadFile d (ModuleTree.ofRoot d o (Loading.sourceRoot dir)).tree f).toOption
  have hdir : (Loading.scan d o dir).files = (Loading.sourceFiles d dir).filterMap load :=
    Loading.files_scan d o dir
  have hsrc : (Loading.scan d o src).files = as.filterMap load ++
      (Loading.sourceFiles d dir).filterMap load ++ bs.filterMap load := by
    rw [Loading.files_scan, w.tree_eq hp o, hsources, List.filterMap_append, List.filterMap_append]
  refine ⟨⟨o, as.filterMap load, (Loading.sourceFiles d dir).filterMap load, bs.filterMap load,
    fun f => decide (f ∈ d.filesUnder dir), fun u hu => ?_, fun u hu => ?_⟩, ?_, ?_,
    fun f => decide_eq_true_iff⟩
  · obtain ⟨f, hf, hload⟩ := List.mem_filterMap.mp hu
    rw [Loading.path_of_loadFile hload]
    exact decide_eq_true (List.mem_of_mem_filter hf)
  · rw [← List.filterMap_append] at hu
    obtain ⟨f, hf, hload⟩ := List.mem_filterMap.mp hu
    rw [Loading.path_of_loadFile hload]
    exact decide_eq_false (hother f hf)
  · exact congrArg (Program.mk · o) hsrc.symm
  · exact congrArg (Program.mk · o) hdir.symm

end Subdirectory

/-! ## 4. Generation -/

namespace Generator

/-- The generator for one directory. -/
def scanning (g : Generator) (s : FsPath) : Generator := { g with scanPaths := [s] }

theorem program_scanning (g : Generator) (s : FsPath) (d : Disk) (env : Environment) :
    (g.scanning s).program d env = Loading.program d (g.effectiveOptions env) s :=
  congrArg (Program.mk · _) (List.flatMap_singleton _ _)

variable {g : Generator} {d : Disk} {m : Marker} {crate : Syntax.NamePath} {runtime : Syntax.Path}

/-- With other directories, a generator is in want of nothing if these are there. -/
theorem Ready.scanning {src dir : FsPath} (h : (g.scanning src).Ready d m crate runtime)
    (hdir : d.isDirectory dir = true) : (g.scanning dir).Ready d m crate runtime :=
  ⟨h.marker, h.crateName, h.runtime, List.forall_mem_singleton.mpr hdir, h.cancellation⟩

theorem Ready.exists_code_found (h : g.Ready d m crate runtime) (env : Environment) :
    ∃ code, (g.generate d env).result = .ok
      ⟨some code, ((g.program d env).found m g.crateName).map (·.2), false⟩ := by
  rw [Program.map_snd_found]
  exact h.exists_code env

/-- **Scanning a subdirectory.** From the directory of the sources and from the one below it, code is
generated, and the files of the one are an excerpt of those of the other. From below, the generation
finds what is found in the files there when all are scanned, with the same names and aliases and in
the same order, if and only if each candidate that can be named is found alike; in particular, if
the files do not look outside. -/
theorem generate_subdirectory (env : Environment) {src dir : FsPath} (hplain : d.IsPlain)
    (w : Subdirectory d src dir) (hready : (g.scanning src).Ready d m crate runtime) :
    let whole := (g.scanning src).program d env
    let part := (g.scanning dir).program d env
    let found := (part.found m g.crateName).map (·.2)
    let selected := ((whole.found m g.crateName).filter (·.1.file ∈ d.filesUnder dir)).map (·.2)
    (∃ code, ((g.scanning src).generate d env).result =
      .ok ⟨some code, (whole.found m g.crateName).map (·.2), false⟩) ∧
    (∃ code, ((g.scanning dir).generate d env).result = .ok ⟨some code, found, false⟩) ∧
    (∃ t : Excerpt, t.IsOf whole part (d.filesUnder dir)) ∧
    ∀ t : Excerpt, t.IsOf whole part (d.filesUnder dir) →
      (found = selected ↔
        ∀ c ∈ part.liveCandidates, ∀ path, c.NameableIn path → t.FoundAlike m c) ∧
      (t.SelfContained m → found = selected) := by
  intro whole part found selected
  have hpart := hready.scanning w.dir_isDirectory
  refine ⟨hready.exists_code_found env, hpart.exists_code_found env, ?_, fun t ht => ?_⟩
  · simp only [whole, part, program_scanning]
    exact w.exists_excerpt hplain (g.effectiveOptions env)
  · have hnamed : part.HasNamedModules :=
      (Loading.hasPathNames_programOf d _ _).hasNamedModules
    have hiff := ht.found_eq_iff hnamed m g.crateName
    refine ⟨hiff, fun hself => hiff.mpr fun c hc path _ => ?_⟩
    rw [← ht.part] at hc
    exact hself.foundAlike hc

/-- The program that is loaded from a directory below `src`, given the files of the crate. -/
theorem program_below_src {tree : ModuleTree}
    (htree : (ModuleTree.ofRoot d .none ⟨"src"⟩).tree = tree) {s : FsPath}
    (hroot : Loading.sourceRoot s = ⟨"src"⟩) :
    (ofSrc.scanning s).program d [] = ⟨(Loading.sourceFiles d s).filterMap fun f =>
      (Loading.loadFile d tree f).toOption, .none⟩ := by
  have hfiles := Loading.files_scan d .none s
  rw [hroot, htree] at hfiles
  rw [program_scanning]
  exact congrArg (Program.mk · _) hfiles

theorem ready_scanning_src (hdir : d.isDirectory ⟨"src"⟩ = true) :
    (ofSrc.scanning ⟨"src"⟩).Ready d ⟨["a", "b"]⟩ ⟨false, .plain "crate", [], by decide⟩
      Artifact.pgenumPath.toPath :=
  ready_ofSrc hdir

/-- The directory `src/m`, where it is one. -/
def subdirectoryM (hsrc : d.isDirectory ⟨"src"⟩ = true) (hdir : d.isDirectory ⟨"src/m"⟩ = true) :
    Subdirectory d ⟨"src"⟩ ⟨"src/m"⟩ where
  root := ⟨"src"⟩
  names := ["m"]
  endsIn := .inl rfl
  isEntryName := List.forall_mem_singleton.mpr ⟨by decide, by decide, by decide, by decide⟩
  avoids := by decide
  src_spells := .inl rfl
  dir_spells := .inl (by decide +kernel)
  src_isDirectory := hsrc
  dir_isDirectory := hdir

/-- The head of a public module with a file of its own name. -/
def moduleHead (i : Ident) : ModuleHead := publicModule i none

/-- The declaration `pub use a::b as c;`. -/
def useRenamed : Item :=
  .use ⟨[], .everyone, false, .path (.plain "a") (.rename (.plain "b") (.plain "c"))⟩

/-- The enum `pub enum D { E }` with the attribute `c` of another module. -/
def enumMarkedIn (place : Ident) : Enum :=
  { markedEnum with attrs := [⟨false, .path ⟨false, [⟨place, none⟩, ⟨.plain "c", none⟩]⟩⟩] }

/-- A directory in which a marker is renamed and used, and an enum outside of it. -/
@[irreducible] def ownNameDisk : Disk :=
  .ofTexts [("src/lib.rs", "#[a::b] pub enum D { E } pub mod m;"),
    ("src/m/k.rs", "#[super::c] pub enum D { E }"),
    ("src/m/mod.rs", "pub use a::b as c; pub mod k;")]

/-- The files of that directory. -/
def ownNameExcerpt : Excerpt where
  options := .none
  before := [⟨⟨"src/lib.rs"⟩, some .root, true,
      ⟨[], [.enum markedEnum, .fileModule (moduleHead (.plain "m"))]⟩⟩]
  files := [⟨⟨"src/m/k.rs"⟩, some ⟨["m", "k"]⟩, true,
      ⟨[], [.enum (enumMarkedIn (.plain "super"))]⟩⟩,
    ⟨⟨"src/m/mod.rs"⟩, some ⟨["m"]⟩, true,
      ⟨[], [useRenamed, .fileModule (moduleHead (.plain "k"))]⟩⟩]
  after := []
  has f := decide (f ∈ ownNameDisk.filesUnder ⟨"src/m"⟩)
  has_files := by decide +kernel
  not_has := by decide +kernel

theorem tree_ownName : (ModuleTree.ofRoot ownNameDisk .none ⟨"src"⟩).tree =
    [⟨["src", "lib.rs"], .root, true,
        ⟨[], [.enum markedEnum, .fileModule (moduleHead (.plain "m"))]⟩⟩,
      ⟨["src", "m", "mod.rs"], ⟨["m"]⟩, true,
        ⟨[], [useRenamed, .fileModule (moduleHead (.plain "k"))]⟩⟩,
      ⟨["src", "m", "k.rs"], ⟨["m", "k"]⟩, true,
        ⟨[], [.enum (enumMarkedIn (.plain "super"))]⟩⟩] := by
  decide +kernel

theorem isOf_ownNameExcerpt : ownNameExcerpt.IsOf ((ofSrc.scanning ⟨"src"⟩).program ownNameDisk [])
    ((ofSrc.scanning ⟨"src/m"⟩).program ownNameDisk []) (ownNameDisk.filesUnder ⟨"src/m"⟩) := by
  refine ⟨?_, ?_, fun f => decide_eq_true_iff⟩
  · rw [program_below_src tree_ownName sourceRoot_src]
    exact congrArg (Program.mk · .none) (by decide +kernel)
  · rw [program_below_src tree_ownName (by decide +kernel)]
    exact congrArg (Program.mk · .none) (by decide +kernel)

/-- Its one marker leads to the module of the directory, which imports the name from a crate. -/
theorem selfContained_ownNameExcerpt : ownNameExcerpt.SelfContained ⟨["a", "b"]⟩ := by
  let ss := ownNameExcerpt.part.scopes
  obtain ⟨hmentions, hfirst, hscope, hmodule, hparent, htarget, howns⟩ :
      ownNameExcerpt.part.mentions "a" = true ∧
        (∀ c ∈ ownNameExcerpt.part.liveCandidates, ownNameExcerpt.IsFirst c) ∧
        (∀ c ∈ ownNameExcerpt.part.liveCandidates, c.scope = 0 ∧
          ∀ a ∈ c.enum.attrs, a.name.names = ["super", "c"]) ∧
        (ss.moduleOf? 0).bind ModulePath.parent? = some ⟨["m"]⟩ ∧ ss.parentOf? 0 = some 1 ∧
        ss.targetOf? 1 "c" = some ["a", "b"] ∧ ownNameExcerpt.Owns ⟨["m"]⟩ := by
    decide +kernel
  refine ⟨fun _ => hmentions, hfirst, fun c hc a ha _ path hlooks => ?_⟩
  obtain ⟨hzero, hnames⟩ := hscope c hc
  rw [hzero, hnames a ha] at hlooks
  rcases hlooks.of_super with hpath | ⟨parent, hsome, hlooks⟩
  · obtain rfl := Option.some.inj (hmodule.symm.trans hpath)
    exact howns
  · obtain rfl := Option.some.inj (hparent.symm.trans hsome)
    exact absurd hlooks (Scopes.not_looksUp_of_binding rfl htarget rfl)

theorem generate_subdirectory_ownName :
    let whole := ofSrc.scanning ⟨"src"⟩
    let part := ofSrc.scanning ⟨"src/m"⟩
    (ownNameDisk.IsPlain ∧ Nonempty (Subdirectory ownNameDisk ⟨"src"⟩ ⟨"src/m"⟩) ∧
      whole.Ready ownNameDisk ⟨["a", "b"]⟩ ⟨false, .plain "crate", [], by decide⟩
        Artifact.pgenumPath.toPath ∧
      ownNameExcerpt.IsOf (whole.program ownNameDisk []) (part.program ownNameDisk [])
        (ownNameDisk.filesUnder ⟨"src/m"⟩) ∧
      ownNameExcerpt.SelfContained ⟨["a", "b"]⟩) ∧
    (∃ code, (whole.generate ownNameDisk []).result =
      .ok ⟨some code, [⟨"crate::D", none⟩, ⟨"crate::m::k::D", none⟩], false⟩) ∧
    ∃ code, (part.generate ownNameDisk []).result =
      .ok ⟨some code, [⟨"crate::m::k::D", none⟩], false⟩ := by
  intro whole part
  obtain ⟨hsrc, hdir⟩ : ownNameDisk.isDirectory ⟨"src"⟩ = true ∧
      ownNameDisk.isDirectory ⟨"src/m"⟩ = true := by
    decide +kernel
  have hplain : ownNameDisk.IsPlain := by
    unfold ownNameDisk
    with_reducible exact Disk.isPlain_ofTexts _
  have hready := ready_scanning_src hsrc
  have hexcerpt := isOf_ownNameExcerpt
  obtain ⟨⟨code, hwhole⟩, ⟨code', hpart⟩, -, hfound⟩ :=
    generate_subdirectory [] hplain (subdirectoryM hsrc hdir) hready
  have hself := (hfound _ hexcerpt).2 selfContained_ownNameExcerpt
  have hall : ((whole.program ownNameDisk []).found ⟨["a", "b"]⟩ ofSrc.crateName).map (·.2) =
      [⟨"crate::D", none⟩, ⟨"crate::m::k::D", none⟩] := by
    rw [← hexcerpt.whole]
    decide +kernel
  have hselected : (((whole.program ownNameDisk []).found ⟨["a", "b"]⟩ ofSrc.crateName).filter
      (·.1.file ∈ ownNameDisk.filesUnder ⟨"src/m"⟩)).map (·.2) = [⟨"crate::m::k::D", none⟩] := by
    rw [← hexcerpt.whole]
    decide +kernel
  rw [hall] at hwhole
  rw [hself, hselected] at hpart
  exact ⟨⟨hplain, ⟨subdirectoryM hsrc hdir⟩, hready, hexcerpt, selfContained_ownNameExcerpt⟩,
    ⟨code, hwhole⟩, code', hpart⟩

/-- A directory whose enum is marked by a name that the file of the crate root renames. -/
@[irreducible] def rootNameDisk : Disk :=
  .ofTexts [("src/lib.rs", "pub use a::b as c; pub mod m;"),
    ("src/m/mod.rs", "#[crate::c] pub enum D { E }")]

theorem tree_rootName : (ModuleTree.ofRoot rootNameDisk .none ⟨"src"⟩).tree =
    [⟨["src", "lib.rs"], .root, true, ⟨[], [useRenamed, .fileModule (moduleHead (.plain "m"))]⟩⟩,
      ⟨["src", "m", "mod.rs"], ⟨["m"]⟩, true,
        ⟨[], [.enum (enumMarkedIn (.plain "crate"))]⟩⟩] := by
  decide +kernel

/-- Scanned by itself, the directory has no enum, because the file that says what the marker stands
for is not one of its files. -/
theorem not_found_rootName :
    let whole := ofSrc.scanning ⟨"src"⟩
    let part := ofSrc.scanning ⟨"src/m"⟩
    (rootNameDisk.IsPlain ∧ Nonempty (Subdirectory rootNameDisk ⟨"src"⟩ ⟨"src/m"⟩)) ∧
    (∃ code, (whole.generate rootNameDisk []).result =
      .ok ⟨some code, [⟨"crate::m::D", none⟩], false⟩) ∧
    (∃ code, (part.generate rootNameDisk []).result = .ok ⟨some code, [], false⟩) ∧
    ((whole.program rootNameDisk []).found ⟨["a", "b"]⟩ "crate").map
        (fun x => (x.1.file, x.2)) = [(⟨"src/m/mod.rs"⟩, ⟨"crate::m::D", none⟩)] ∧
    ⟨"src/m/mod.rs"⟩ ∈ rootNameDisk.filesUnder ⟨"src/m"⟩ := by
  intro whole part
  obtain ⟨hsrc, hdir, hunder⟩ : rootNameDisk.isDirectory ⟨"src"⟩ = true ∧
      rootNameDisk.isDirectory ⟨"src/m"⟩ = true ∧
      ⟨"src/m/mod.rs"⟩ ∈ rootNameDisk.filesUnder ⟨"src/m"⟩ := by
    decide +kernel
  have hplain : rootNameDisk.IsPlain := by
    unfold rootNameDisk
    with_reducible exact Disk.isPlain_ofTexts _
  have hready := ready_scanning_src hsrc
  obtain ⟨code, hwhole⟩ : ∃ code, (whole.generate rootNameDisk []).result = .ok ⟨some code,
      ((whole.program rootNameDisk []).found ⟨["a", "b"]⟩ ofSrc.crateName).map (·.2), false⟩ :=
    hready.exists_code_found []
  obtain ⟨code', hpart⟩ : ∃ code, (part.generate rootNameDisk []).result = .ok ⟨some code,
      ((part.program rootNameDisk []).found ⟨["a", "b"]⟩ ofSrc.crateName).map (·.2), false⟩ :=
    (hready.scanning hdir).exists_code_found []
  -- The two programs written out: the root file, which renames the marker, is only in the first.
  have hwhole' : whole.program rootNameDisk [] =
      ⟨[⟨⟨"src/lib.rs"⟩, some .root, true,
          ⟨[], [useRenamed, .fileModule (moduleHead (.plain "m"))]⟩⟩,
        ⟨⟨"src/m/mod.rs"⟩, some ⟨["m"]⟩, true,
          ⟨[], [.enum (enumMarkedIn (.plain "crate"))]⟩⟩], .none⟩ := by
    rw [program_below_src tree_rootName sourceRoot_src]
    exact congrArg (Program.mk · .none) (by decide +kernel)
  have hpart' : part.program rootNameDisk [] =
      ⟨[⟨⟨"src/m/mod.rs"⟩, some ⟨["m"]⟩, true,
          ⟨[], [.enum (enumMarkedIn (.plain "crate"))]⟩⟩], .none⟩ := by
    rw [program_below_src tree_rootName (by decide +kernel)]
    exact congrArg (Program.mk · .none) (by decide +kernel)
  have hfound : ((whole.program rootNameDisk []).found ⟨["a", "b"]⟩ ofSrc.crateName).map
      (fun x => (x.1.file, x.2)) = [(⟨"src/m/mod.rs"⟩, ⟨"crate::m::D", none⟩)] := by
    rw [hwhole']
    decide +kernel
  have hall : ((whole.program rootNameDisk []).found ⟨["a", "b"]⟩ ofSrc.crateName).map (·.2) =
      [⟨"crate::m::D", none⟩] := by
    have hdescriptors := congrArg (List.map Prod.snd) hfound
    rw [List.map_map] at hdescriptors
    exact hdescriptors
  have hnone : ((part.program rootNameDisk []).found ⟨["a", "b"]⟩ ofSrc.crateName).map (·.2) =
      [] := by
    rw [hpart']
    decide +kernel
  rw [hall] at hwhole
  rw [hnone] at hpart
  exact ⟨⟨hplain, ⟨subdirectoryM hsrc hdir⟩⟩, ⟨code, hwhole⟩, ⟨code', hpart⟩, hfound, hunder⟩

end Generator

end EnumCatalog
