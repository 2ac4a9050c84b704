import EnumCatalog.Proofs.DirectorySteps
import EnumCatalog.Proofs.Subdirectory

/-!
# Where the files of modules lie

An attribute can give a module any file. Without such attributes the place of a file is a matter of
its module alone (`LiesAt`): the root lies in `lib.rs`, or in `main.rs`, and every other module lies
below the source root by the names on its way, in a file of its name or in `mod.rs` in a directory
of its name.

The search for files does not go by module paths. It hands a directory on from each declaration to
the next, through files of both kinds and through modules in braces. What carries over is that the
directory of a module's own modules is called by the names of the modules above
(`ModuleTree.Chain.liesAt`). As a module path leaves no choice of the file, no two files that are
loaded from a directory are the same module (`Program.load_liesAt`).
-/

set_option autoImplicit false

namespace EnumCatalog

open Syntax (Item ModuleHead SourceFile)

/-! ## 1. Names -/

theorem IsIdentName.ne_nil {n : String} (h : IsIdentName n) : n.toList ≠ [] := by
  intro hnil
  rw [IsIdentName, hnil] at h
  cases h

/-- An identifier can be the name of an entry. -/
theorem IsIdentName.isEntryName {n : String} (h : IsIdentName n) : IsEntryName n := by
  have hdot : '.' ∉ n.toList := h.not_mem (by decide)
  refine ⟨?_, ?_, ?_, h.not_mem (by decide)⟩
  · rintro rfl
    exact h.ne_nil rfl
  · rintro rfl
    exact hdot (by decide)
  · rintro rfl
    exact hdot (by decide)

instance (n : String) : Decidable (IsEntryName n) :=
  inferInstanceAs (Decidable (_ ∧ _))

/-- So can an identifier with the ending of source files. -/
theorem IsIdentName.isEntryName_append {n : String} (h : IsIdentName n) :
    IsEntryName (n ++ ".rs") := by
  have hlength : 4 ≤ (n ++ ".rs").toList.length := by
    rw [String.toList_append, List.length_append]
    exact Nat.add_le_add (List.length_pos_iff.mpr h.ne_nil) (Nat.le_refl 3)
  have hne {s : String} (hs : s.toList.length < 4) : n ++ ".rs" ≠ s := by
    rintro rfl
    exact Nat.not_lt_of_le hlength hs
  refine ⟨hne (by decide), hne (by decide), hne (by decide), ?_⟩
  rw [String.toList_append, List.mem_append, not_or]
  exact ⟨h.not_mem (by decide), by decide⟩

/-- It has that ending. -/
theorem IsIdentName.extension?_append {n : String} (h : IsIdentName n) :
    (⟨n ++ ".rs"⟩ : FsPath).extension? = some "rs" := by
  have hname : (⟨n ++ ".rs"⟩ : FsPath).fileName? = some (n ++ ".rs") := by
    rw [FsPath.fileName?, FsPath.parts_entryName h.isEntryName_append]
    rfl
  obtain ⟨c, cs, hcs⟩ := List.exists_cons_of_ne_nil (mt List.reverse_eq_nil_iff.mp h.ne_nil)
  have hreverse : (n ++ ".rs").toList.reverse = 's' :: 'r' :: '.' :: c :: cs := by
    rw [String.toList_append, List.reverse_append, hcs]
    rfl
  rw [FsPath.extension?, hname, Option.bind_eq_bind, Option.bind_some]
  simp only [hreverse]
  rfl

/-! ## 2. Names made up from a directory, followed backward -/

namespace Disk

variable {d : Disk} {dir : FsPath} {name : String} {l : Location}

/-- A name that is made up from a directory's and an entry's leads to an entry of the directory. -/
theorem exists_of_canonical?_join (hp : d.IsPlain) (hdir : dir.text ≠ "") (hname : IsEntryName name)
    (h : d.canonical? (dir.join ⟨name⟩) = some l) :
    ∃ k, d.canonical? dir = some k ∧ l = k ++ [name] := by
  have hrelative := FsPath.isAbsolute_of_not_mem hname.2.2.2
  have habs : dir.isAbsolute = false := by
    rw [← (FsPath.text_join hdir hname.2.2.2).1]
    exact (walk_of_canonical? hp h).1
  rw [canonical?_join_eq_bind hp hdir habs hrelative] at h
  obtain ⟨k, hlead, hwalk⟩ := Option.bind_eq_some_iff.mp h
  refine ⟨k, canonical?_of_lead? hp hdir habs hlead, ?_⟩
  rw [piecesOf, FsPath.pieces_of_not_mem hname.2.2.2, List.map_singleton, String.ofList_toList,
    walk_cons hp, if_neg (by simp [hname.1, hname.2.1]), if_neg (by simp [hname.2.2.1])] at hwalk
  split at hwalk
  · rw [walk] at hwalk
    exact (Option.some.inj hwalk).symm
  · exact (Option.some.inj hwalk).symm
  · cases hwalk

/-- A file in a directory is found by a name that is made up so. -/
theorem isFile_join (hp : d.IsPlain) (hname : IsEntryName name) {c : Content}
    (hdir : d.canonical? dir = some l) (hfile : d.nodeAt? (l ++ [name]) = some (.file c)) :
    d.isFile (dir.join ⟨name⟩) = true := by
  rw [nodeAt?_append] at hfile
  obtain ⟨n, hn, hat⟩ := Option.bind_eq_some_iff.mp hfile
  cases n with
  | directory es =>
    have hcanonical := canonical?_join hp hdir hn hat hname
    rw [isFile, get?, hcanonical, Option.bind_eq_bind, Option.bind_some, nodeAt?_append, hn,
      Option.bind_some, hat]
  | _ => cases hat

end Disk

/-! ## 3. Places -/

namespace Syntax.Item

mutual

/-- No attribute gives a module its file or directory, here and within modules in braces. -/
def HasNoPath : Item → Prop
  | .fileModule h => h.pathValue? = none
  | .inlineModule h items => h.pathValue? = none ∧ AllHaveNoPath items
  | _ => True

@[inherit_doc HasNoPath]
def AllHaveNoPath : List Item → Prop
  | [] => True
  | i :: rest => i.HasNoPath ∧ AllHaveNoPath rest

end

theorem allHaveNoPath_iff {items : List Item} : AllHaveNoPath items ↔ ∀ i ∈ items, i.HasNoPath := by
  induction items with
  | nil => simp [AllHaveNoPath]
  | cons i items ih => rw [AllHaveNoPath, ih, List.forall_mem_cons]

theorem AllHaveNoPath.of_fill {s : Site} {xs : List Item} (h : AllHaveNoPath (s.fill xs)) :
    (∀ head ∈ s.heads, head.pathValue? = none) ∧ AllHaveNoPath xs := by
  induction s with
  | here before after =>
    rw [allHaveNoPath_iff] at h ⊢
    exact ⟨fun head hmem => absurd hmem List.not_mem_nil,
      fun i hi => h i (List.mem_append_left _ (List.mem_append_right _ hi))⟩
  | within before head s after ih =>
    rw [allHaveNoPath_iff] at h
    have hmodule := h (.inlineModule head (s.fill xs)) (List.mem_append_right _ List.mem_cons_self)
    rw [HasNoPath] at hmodule
    obtain ⟨hheads, hxs⟩ := ih hmodule.2
    exact ⟨List.forall_mem_cons.mpr ⟨hmodule.1, hheads⟩, hxs⟩

end Syntax.Item

open Syntax.Item (AllHaveNoPath)

/-- In no source file on the disk is there an attribute that gives a module its file. -/
def Disk.HasNoPaths (d : Disk) : Prop :=
  ∀ (above : Location) (name text : String) (source : SourceFile),
    d.nodeAt? (above ++ [name]) = some (.file (.text text)) →
    (⟨name⟩ : FsPath).extension? = some "rs" → SourceFile.parse? text = some source →
    AllHaveNoPath source.items

/-- The file of a module of a crate lies at a location, if no attribute gives it another place. The
source root has a location, and a module the names of the modules from the crate root down to it. -/
inductive LiesAt (d : Disk) (root : Location) : List String → Location → Prop where
  | lib : LiesAt d root [] (root ++ ["lib.rs"])
  | main (hlib : ∀ c, d.nodeAt? (root ++ ["lib.rs"]) ≠ some (.file c)) :
      LiesAt d root [] (root ++ ["main.rs"])
  | file (above : List String) (name : String) :
      LiesAt d root (above ++ [name]) (root ++ above ++ [name ++ ".rs"])
  | directory (above : List String) (name : String)
      (hfile : ∀ c, d.nodeAt? (root ++ above ++ [name ++ ".rs"]) ≠ some (.file c)) :
      LiesAt d root (above ++ [name]) (root ++ above ++ [name] ++ ["mod.rs"])

namespace LiesAt

variable {d : Disk} {root l l' : Location} {names : List String}

/-- It is a file with the ending of source files. -/
theorem exists_name (h : LiesAt d root names l) (hnames : ∀ n ∈ names, IsIdentName n) :
    ∃ above name, l = above ++ [name] ∧ (⟨name⟩ : FsPath).extension? = some "rs" := by
  cases h with
  | lib => exact ⟨root, "lib.rs", rfl, by decide⟩
  | main _ => exact ⟨root, "main.rs", rfl, by decide⟩
  | file above name =>
    have hname := hnames name (List.mem_append_right _ (List.mem_singleton_self name))
    exact ⟨root ++ above, name ++ ".rs", rfl, hname.extension?_append⟩
  | directory above name _ => exact ⟨root ++ above ++ [name], "mod.rs", rfl, by decide⟩

theorem eq_or_of_root (h : LiesAt d root [] l) : l = root ++ ["lib.rs"] ∨
    (∀ c, d.nodeAt? (root ++ ["lib.rs"]) ≠ some (.file c)) ∧ l = root ++ ["main.rs"] := by
  generalize hnames : ([] : List String) = names at h
  cases h with
  | lib => exact .inl rfl
  | main hlib => exact .inr ⟨hlib, rfl⟩
  | file above name => exact absurd hnames (by simp)
  | directory above name _ => exact absurd hnames (by simp)

theorem eq_or_of_child {above : List String} {name : String}
    (h : LiesAt d root (above ++ [name]) l) : l = root ++ above ++ [name ++ ".rs"] ∨
      (∀ c, d.nodeAt? (root ++ above ++ [name ++ ".rs"]) ≠ some (.file c)) ∧
        l = root ++ above ++ [name] ++ ["mod.rs"] := by
  generalize hnames : above ++ [name] = names at h
  cases h with
  | lib => exact absurd hnames (by simp)
  | main _ => exact absurd hnames (by simp)
  | file above' name' =>
    obtain ⟨rfl, hname⟩ := List.append_inj' hnames rfl
    exact .inl (by rw [List.singleton_inj.mp hname])
  | directory above' name' hfile =>
    obtain ⟨rfl, hname⟩ := List.append_inj' hnames rfl
    obtain rfl := List.singleton_inj.mp hname
    exact .inr ⟨hfile, rfl⟩

/-- The module decides which of the files on the disk it is. -/
theorem unique (h : LiesAt d root names l) (h' : LiesAt d root names l') {c c' : Content}
    (hl : d.nodeAt? l = some (.file c)) (hl' : d.nodeAt? l' = some (.file c')) : l = l' := by
  -- Of two places the first is taken if there is a file, so only one of them counts.
  have decided {first second : Location}
      (h : l = first ∨ (∀ c, d.nodeAt? first ≠ some (.file c)) ∧ l = second)
      (h' : l' = first ∨ (∀ c, d.nodeAt? first ≠ some (.file c)) ∧ l' = second) : l = l' := by
    rcases h with rfl | ⟨hnone, rfl⟩
    · rcases h' with rfl | ⟨hnone, -⟩
      · rfl
      · exact absurd hl (hnone c)
    · rcases h' with rfl | ⟨-, rfl⟩
      · exact absurd hl' (hnone c')
      · rfl
  rcases names.eq_nil_or_concat with rfl | ⟨above, name, rfl⟩
  · exact decided h.eq_or_of_root h'.eq_or_of_root
  · rw [List.concat_eq_append] at h h'
    exact decided h.eq_or_of_child h'.eq_or_of_child

end LiesAt

/-! ## 4. Along a chain of declarations -/

theorem directoryOf_append (dir : FsPath) (hs gs : List ModuleHead) :
    directoryOf dir (hs ++ gs) = directoryOf (directoryOf dir hs) gs := List.foldl_append

/-- The directory of one more module is called by its name, if no attribute gives it another. -/
theorem directoryOf_concat (dir : FsPath) (hs : List ModuleHead) {h : ModuleHead}
    (hpath : h.pathValue? = none) :
    directoryOf dir (hs ++ [h]) = (directoryOf dir hs).join ⟨h.ident.name⟩ := by
  rw [directoryOf_append]
  show (directoryOf dir hs).join ⟨h.pathValue?.getD h.ident.name⟩ = _
  rw [hpath, Option.getD_none]

section

variable {d : Disk} {root dir : FsPath} {hs : List ModuleHead} {k : Location}

theorem text_directoryOf_ne (hroot : root.text ≠ "") (hpaths : ∀ h ∈ hs, h.pathValue? = none) :
    (directoryOf root hs).text ≠ "" := by
  induction hs using List.reverseRecOn with
  | nil => exact hroot
  | append_singleton hs h ih =>
    obtain ⟨hpaths, hpath⟩ := List.forall_mem_append.mp hpaths
    rw [directoryOf_concat root hs (hpath h (List.mem_singleton_self h))]
    exact FsPath.text_join_ne (ih hpaths) (isIdentName_ident h.ident).isEntryName

/-- Where the directory of a module leads, the source root leads to a directory above. -/
theorem exists_of_canonical?_directoryOf (hp : d.IsPlain) (hroot : root.text ≠ "")
    (hpaths : ∀ h ∈ hs, h.pathValue? = none) (h : d.canonical? (directoryOf root hs) = some k) :
    ∃ base, d.canonical? root = some base ∧ k = base ++ hs.map (·.ident.name) := by
  induction hs using List.reverseRecOn generalizing k with
  | nil => exact ⟨k, h, (List.append_nil k).symm⟩
  | append_singleton hs head ih =>
    obtain ⟨hpaths, hpath⟩ := List.forall_mem_append.mp hpaths
    rw [directoryOf_concat root hs (hpath head (List.mem_singleton_self head))] at h
    obtain ⟨k', hk', rfl⟩ := Disk.exists_of_canonical?_join hp (text_directoryOf_ne hroot hpaths)
      (isIdentName_ident head.ident).isEntryName h
    obtain ⟨base, hbase, rfl⟩ := ih hpaths hk'
    refine ⟨base, hbase, ?_⟩
    rw [List.map_append, List.map_singleton, List.append_assoc]

end

namespace ModuleTree

variable {d : Disk} {o : Cfg.Options} {root : FsPath} {tree : ModuleTree}

/-- The file that a declaration without an attribute names lies where its module should. -/
theorem liesAt_of_namesFile (hp : d.IsPlain) (hroot : root.text ≠ "") {hs : List ModuleHead}
    {h : ModuleHead} (hpaths : ∀ g ∈ hs ++ [h], g.pathValue? = none) {base file dir : FsPath}
    (hnames : NamesFile d base (directoryOf root hs) h file dir) {l : Location}
    (hl : d.canonical? file = some l) :
    ∃ k, d.canonical? root = some k ∧ LiesAt d k ((hs ++ [h]).map (·.ident.name)) l := by
  obtain ⟨habove, hpath⟩ := List.forall_mem_append.mp hpaths
  have hname := isIdentName_ident h.ident
  have hdir := text_directoryOf_ne hroot habove
  rw [List.map_append, List.map_singleton]
  -- Without an attribute the file is named after the module, or it is the one in the directory that
  -- is.
  cases hnames with
  | byAttribute hvalue =>
    rw [List.forall_mem_singleton.mp hpath] at hvalue
    cases hvalue
  | byName _ _ =>
    obtain ⟨k, hk, rfl⟩ := Disk.exists_of_canonical?_join hp hdir hname.isEntryName_append hl
    obtain ⟨base, hbase, rfl⟩ := exists_of_canonical?_directoryOf hp hroot habove hk
    exact ⟨base, hbase, .file _ _⟩
  | inDirectory _ hfile =>
    have hinner := FsPath.text_join_ne hdir hname.isEntryName
    obtain ⟨own, hown, rfl⟩ := Disk.exists_of_canonical?_join hp hinner (by decide) hl
    obtain ⟨k, hk, rfl⟩ := Disk.exists_of_canonical?_join hp hdir hname.isEntryName hown
    obtain ⟨base, hbase, rfl⟩ := exists_of_canonical?_directoryOf hp hroot habove hk
    refine ⟨base, hbase, .directory _ _ fun c hc => ?_⟩
    rw [Disk.isFile_join hp hname.isEntryName_append hk hc] at hfile
    cases hfile

/-- **Along a chain the files lie where their modules should**, and the directory that is handed on
is called by the names of the modules, if this is so of what holds of the files on the way. -/
theorem Chain.liesAt (hp : d.IsPlain) (hroot : root.text ≠ "")
    {holds : List ModuleHead → FsPath → FsPath → SourceFile → Prop}
    (hholds : ∀ hs file dir source, holds hs file dir source → ∃ l, d.canonical? file = some l ∧
      ((∃ above name, l = above ++ [name] ∧ (⟨name⟩ : FsPath).extension? = some "rs") →
        AllHaveNoPath source.items))
    {hs : List ModuleHead} {file dir : FsPath} (hchain : Chain d root holds hs file dir) :
    (∀ h ∈ hs, h.pathValue? = none) ∧ dir = directoryOf root hs ∧
      ∀ l, d.canonical? file = some l →
        ∃ base, d.canonical? root = some base ∧ LiesAt d base (hs.map (·.ident.name)) l := by
  induction hchain with
  | lib _ =>
    refine ⟨fun h hh => absurd hh List.not_mem_nil, rfl, fun l hl => ?_⟩
    obtain ⟨base, hbase, rfl⟩ := Disk.exists_of_canonical?_join hp hroot (by decide) hl
    exact ⟨base, hbase, .lib⟩
  | main hlib _ =>
    refine ⟨fun h hh => absurd hh List.not_mem_nil, rfl, fun l hl => ?_⟩
    obtain ⟨base, hbase, rfl⟩ := Disk.exists_of_canonical?_join hp hroot (by decide) hl
    refine ⟨base, hbase, .main fun c hc => ?_⟩
    rw [Disk.isFile_join hp (by decide) hbase hc] at hlib
    cases hlib
  | @declared hs file dir file' dir' source s h _ hsource hfill hnames ih =>
    obtain ⟨habove, rfl, hlies⟩ := ih
    obtain ⟨l, hl, hitems⟩ := hholds hs file _ source hsource
    obtain ⟨base, -, hat⟩ := hlies l hl
    -- The file is a source file by its ending, so no attribute gives a place to what it declares.
    have hnoPath : AllHaveNoPath (s.fill [.fileModule h]) := hfill ▸ hitems
      (hat.exists_name fun n hn => by
        obtain ⟨g, -, rfl⟩ := List.mem_map.mp hn
        exact isIdentName_ident g.ident)
    obtain ⟨hheads, hlast, -⟩ := hnoPath.of_fill
    rw [Syntax.Item.HasNoPath] at hlast
    have hpaths : ∀ g ∈ hs ++ (s.heads ++ [h]), g.pathValue? = none :=
      List.forall_mem_append.mpr
        ⟨habove, List.forall_mem_append.mpr ⟨hheads, List.forall_mem_singleton.mpr hlast⟩⟩
    rw [← directoryOf_append] at hnames
    rw [← List.append_assoc] at hpaths ⊢
    refine ⟨hpaths, ?_, fun l hl => liesAt_of_namesFile hp hroot hpaths hnames hl⟩
    rw [directoryOf_concat root _ hlast]
    cases hnames with
    | byAttribute hvalue =>
      rw [hlast] at hvalue
      cases hvalue
    | byName _ _ => rfl
    | inDirectory _ _ => rfl

/-- So do the files of the tree, if no source file on the disk has such an attribute. -/
theorem liesAt_of_mem (hp : d.IsPlain) (hnone : d.HasNoPaths) (hroot : root.text ≠ "")
    {f : TreeFile} (hf : f ∈ (ofRoot d o root).tree) :
    ∃ base, d.canonical? root = some base ∧ LiesAt d base f.module.names f.location := by
  obtain ⟨p, hload, hs, hchain, hfits, -⟩ := justified_of_mem hf
  obtain ⟨hlocation, -, hmodule, -⟩ := load?_eq_some_iff.mp hload
  obtain ⟨-, -, hlies⟩ := hchain.liesAt hp hroot fun _ _ _ _ hkept => by
    obtain ⟨g, hg, hl, -, rfl⟩ := hkept
    refine ⟨g.location, hl, ?_⟩
    rintro ⟨above, name, heq, hends⟩
    obtain ⟨_, hread, -⟩ := justified_of_mem hg
    obtain ⟨t, ht, hparse⟩ := exists_text_of_load? hread
    exact hnone above name t g.source (heq ▸ ht) hends hparse
  rw [hmodule, hfits.module]
  exact hlies _ hlocation

/-- The sources on a disk are those of a crate, and have no such attribute there. -/
theorem hasNoPaths_of_tree (h : ∀ l ∈ fileLocations d, ∃ f ∈ (ofRoot d o root).tree,
    f.location = l ∧ AllHaveNoPath f.source.items) : d.HasNoPaths := by
  intro above name text source hat _ hparse
  obtain ⟨f, hf, hl, hitems⟩ := h _ (mem_fileLocations_of_nodeAt? hat)
  obtain ⟨_, hload, -⟩ := justified_of_mem hf
  obtain ⟨t, ht, hsource⟩ := exists_text_of_load? hload
  rw [hl, hat] at ht
  cases ht
  rw [hparse] at hsource
  rwa [Option.some.inj hsource]

end ModuleTree

/-! ## 5. Loading -/

namespace Loading

variable {d : Disk} {o : Cfg.Options} {scanPath : FsPath}

theorem text_sourceRoot_ne (h : scanPath.text ≠ "") : (sourceRoot scanPath).text ≠ "" := by
  rw [sourceRoot]
  cases hfind : scanPath.ancestors.find? (·.fileName? == some "src") with
  | none => exact h
  | some root =>
    have hname : root.fileName? = some "src" := by simpa using List.find?_some hfind
    intro hempty
    have hroot : root = ⟨""⟩ := congrArg FsPath.mk hempty
    rw [hroot] at hname
    exact absurd hname (by decide)

/-- A file with a module has it from the tree. -/
theorem exists_treeFile_of_loadFile {tree : ModuleTree} {f : FsPath} {u : SourceUnit}
    {m : ModulePath} (h : (loadFile d tree f).toOption = some u) (hm : u.module? = some m) :
    ∃ g ∈ tree, d.canonical? f = some g.location ∧ g.module = m := by
  unfold loadFile at h
  split at h
  · next g hfound =>
    obtain ⟨l, hl, hat⟩ := Option.bind_eq_some_iff.mp hfound
    obtain rfl := Option.some.inj h
    have hlocation : g.location = l := by simpa using List.find?_some hat
    exact ⟨g, List.mem_of_find?_eq_some hat, hlocation ▸ hl, Option.some.inj hm⟩
  · -- Any other file is loaded without a module.
    split at h
    · cases h
    · split at h
      · cases h
      · obtain rfl := Option.some.inj h
        cases hm

theorem liesAt_of_loadFile (hp : d.IsPlain) (hnone : d.HasNoPaths) (htext : scanPath.text ≠ "")
    {f : FsPath} {u : SourceUnit} {m : ModulePath}
    (h : (loadFile d (ModuleTree.ofRoot d o (sourceRoot scanPath)).tree f).toOption = some u)
    (hm : u.module? = some m) : ∃ root l c, d.canonical? (sourceRoot scanPath) = some root ∧
      d.canonical? f = some l ∧ d.nodeAt? l = some (.file c) ∧ LiesAt d root m.names l := by
  obtain ⟨g, hg, hl, rfl⟩ := exists_treeFile_of_loadFile h hm
  obtain ⟨root, hroot, hlies⟩ := ModuleTree.liesAt_of_mem hp hnone (text_sourceRoot_ne htext) hg
  obtain ⟨_, hload, -⟩ := ModuleTree.justified_of_mem hg
  obtain ⟨c, hc⟩ := ModuleTree.exists_nodeAt?_of_load? hload
  exact ⟨root, g.location, c, hroot, hl, hc, hlies⟩

/-- No two files that are loaded from a directory are the same module. -/
theorem pairwise_module?_files_scan (hp : d.IsPlain) (hnone : d.HasNoPaths)
    (htext : scanPath.text ≠ "") :
    (scan d o scanPath).files.Pairwise fun u v => ∀ m, u.module? = some m → v.module? ≠ some m := by
  have hnodup := List.pairwise_map.mp (nodup_locatedSources hp scanPath)
  rw [files_scan, ← map_fst_locatedSources, List.filterMap_map, List.pairwise_filterMap]
  refine hnodup.imp_of_mem fun {x y} hx hy hne u hu v hv m hum hvm => hne ?_
  obtain ⟨root, l, c, hroot, hl, hc, hlies⟩ := liesAt_of_loadFile hp hnone htext hu hum
  obtain ⟨root', l', c', hroot', hl', hc', hlies'⟩ := liesAt_of_loadFile hp hnone htext hv hvm
  obtain rfl := Option.some.inj (hroot.symm.trans hroot')
  rw [canonical?_of_mem_locatedSources hp hx, Option.some.injEq] at hl
  rw [canonical?_of_mem_locatedSources hp hy, Option.some.injEq] at hl'
  rw [hl, hl']
  exact hlies.unique hlies' hc hc'

end Loading

namespace Program

/-- **Without attributes for files, the place of a file is its module.** Let a program be loaded
from a disk without links, on which no source file has an attribute that gives a module its file. It
has the files of the directories that are scanned, one directory after the other. Each file with a
module lies where that module should, seen from the source root of its directory, and no two files
of a directory are the same module. -/
theorem load_liesAt {d : Disk} {o : Cfg.Options} {scanPaths : List FsPath} {p : Program}
    (hp : d.IsPlain) (hnone : d.HasNoPaths) (hload : (load d o scanPaths).2 = .ok p) :
    p.files = scanPaths.flatMap (fun s => (Loading.scan d o s).files) ∧
      ∀ s ∈ scanPaths,
        (∀ u ∈ (Loading.scan d o s).files, ∀ m, u.module? = some m →
          ∃ root l, d.canonical? (Loading.sourceRoot s) = some root ∧
            d.canonical? u.path = some l ∧ LiesAt d root m.names l) ∧
        (Loading.scan d o s).files.Pairwise fun u v =>
          ∀ m, u.module? = some m → v.module? ≠ some m := by
  obtain ⟨hdirs, rfl⟩ := Loading.load_eq_ok_iff_forall.mp hload
  refine ⟨rfl, fun s hs => ?_⟩
  have htext : s.text ≠ "" := by
    obtain ⟨l, -, hl, -⟩ := Disk.exists_of_isDirectory (hdirs s hs)
    exact Disk.text_ne_of_canonical? hl
  refine ⟨fun u hu m hm => ?_, Loading.pairwise_module?_files_scan hp hnone htext⟩
  rw [Loading.files_scan] at hu
  obtain ⟨f, -, hf⟩ := List.mem_filterMap.mp hu
  obtain ⟨root, l, -, hroot, hl, -, hlies⟩ := Loading.liesAt_of_loadFile hp hnone htext hf hm
  exact ⟨root, l, hroot, Loading.path_of_loadFile hf ▸ hl, hlies⟩

open Generator (ownNameDisk tree_ownName ofSrc isOf_ownNameExcerpt)

theorem hasNoPaths_ownName : ownNameDisk.HasNoPaths := by
  have hfiles : ModuleTree.fileLocations ownNameDisk =
      [["src", "lib.rs"], ["src", "m", "k.rs"], ["src", "m", "mod.rs"]] := by
    decide +kernel
  suffices htree : ∀ l ∈ ModuleTree.fileLocations ownNameDisk,
      ∃ f ∈ (ModuleTree.ofRoot ownNameDisk .none ⟨"src"⟩).tree,
        f.location = l ∧ AllHaveNoPath f.source.items from ModuleTree.hasNoPaths_of_tree htree
  rw [hfiles, tree_ownName]
  intro l hl
  simp only [List.mem_cons, List.not_mem_nil, or_false] at hl
  rcases hl with rfl | rfl | rfl
  · exact ⟨_, .head _, rfl, trivial, rfl, trivial⟩
  · exact ⟨_, .tail _ (.tail _ (.head _)), rfl, trivial, trivial⟩
  · exact ⟨_, .tail _ (.head _), rfl, trivial, rfl, trivial⟩

/-- Scanned from the directory of a module, the file of a module within lies in that directory. -/
theorem load_liesAt_ownName :
    (ownNameDisk.IsPlain ∧ ownNameDisk.HasNoPaths) ∧
      ∃ p, (load ownNameDisk .none [⟨"src/m"⟩]).2 = .ok p ∧ ∃ u ∈ p.files,
        u.module? = some ⟨["m", "k"]⟩ ∧ ∃ l, ownNameDisk.canonical? u.path = some l ∧
          LiesAt ownNameDisk ["src"] ["m", "k"] l := by
  have hplain : ownNameDisk.IsPlain := by
    unfold ownNameDisk
    with_reducible exact Disk.isPlain_ofTexts _
  obtain ⟨hdir, hroot⟩ : ownNameDisk.isDirectory ⟨"src/m"⟩ = true ∧
      ownNameDisk.canonical? (Loading.sourceRoot ⟨"src/m"⟩) = some ["src"] := by
    decide +kernel
  have hload : (load ownNameDisk .none [⟨"src/m"⟩]).2 =
      .ok ((ofSrc.scanning ⟨"src/m"⟩).program ownNameDisk []) :=
    Loading.load_eq_ok_iff_forall.mpr ⟨List.forall_mem_singleton.mpr hdir, rfl⟩
  obtain ⟨hfiles, hplaces⟩ := load_liesAt hplain hasNoPaths_ownName hload
  -- One of the files is that of a module within.
  have hunit : ∃ u ∈ ((ofSrc.scanning ⟨"src/m"⟩).program ownNameDisk []).files,
      u.module? = some ⟨["m", "k"]⟩ := by
    rw [← isOf_ownNameExcerpt.part]
    exact ⟨_, .head _, rfl⟩
  obtain ⟨u, hu, hm⟩ := hunit
  rw [hfiles, List.flatMap_singleton] at hu
  obtain ⟨root, l, hsource, hl, hlies⟩ :=
    (hplaces _ (List.mem_singleton_self _)).1 u hu _ hm
  rw [hroot, Option.some.injEq] at hsource
  refine ⟨⟨hplain, hasNoPaths_ownName⟩, _, hload, u, ?_, hm, l, hl, hsource ▸ hlies⟩
  rw [hfiles, List.flatMap_singleton]
  exact hu

end Program

end EnumCatalog
