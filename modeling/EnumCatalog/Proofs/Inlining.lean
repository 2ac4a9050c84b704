import EnumCatalog.Proofs.FirstModule
import EnumCatalog.Proofs.Mentions
import EnumCatalog.Proofs.Parsing
import EnumCatalog.Proofs.Relocation
import EnumCatalog.Proofs.ScannedFiles

/-!
# Modules in files and modules in braces

Moving the body of a module from its file to where the module is declared should make no difference.
For the program it means that a file goes and its items are put in at a site of another file: the
same block of scopes elsewhere (`Program.descriptors_perm_of_body`). For the disk it means that the
search for the files of the crate goes as before without one of them
(`FileModule.Inlined.searches`), so all other files are loaded as they were
(`FileModule.Inlined.exists_files_scan`).

Three things do matter. Attributes at the start of the file count for the module in braces and not
for the file. Where a block stands decides which scope is found first if another module goes by the
same path. And a file may be no source because of where it stands.
-/

set_option autoImplicit false

namespace EnumCatalog

open Syntax (Item ModuleHead SourceFile)
open Syntax.Item (scopeCountAll modulesAll)
open ModuleTree (Visit filesOf)

/-! ## 1. Programs -/

/-- The paths of the module that a file defines and of the modules in braces in it. -/
def SourceUnit.modules (u : SourceUnit) : List ModulePath :=
  match u.module? with
  | some m => m :: modulesAll m u.source.items
  | none => []

namespace Declarations

theorem modules_of_mem_scopes_ofUnit {o : Cfg.Options} {next : ScopeId} {u : SourceUnit} {s : Scope}
    (hs : s ∈ (ofUnit o next u).scopes) {path : ModulePath} (hpath : s.module? = some path) :
    path ∈ u.modules := by
  rw [ofUnit, scopes_append, List.singleton_append, List.mem_cons] at hs
  rcases hs with rfl | hs
  · rw [SourceUnit.modules, show u.module? = some path from hpath]
    exact List.mem_cons_self
  · obtain ⟨m, hm, hmem⟩ := modules_of_mem_scopes_ofItems hs path hpath
    rw [SourceUnit.modules, show u.module? = some m from hm]
    exact List.mem_cons_of_mem m hmem

theorem modules_of_mem_scopes_ofUnits {o : Cfg.Options} {next : ScopeId} {us : List SourceUnit}
    {s : Scope} (hs : s ∈ (ofUnits o next us).scopes) {path : ModulePath}
    (hpath : s.module? = some path) : ∃ u ∈ us, path ∈ u.modules := by
  induction us generalizing next with
  | nil => cases hs
  | cons u us ih =>
    rw [ofUnits_cons, scopes_append, List.mem_append] at hs
    rcases hs with hs | hs
    · exact ⟨u, List.mem_cons_self, modules_of_mem_scopes_ofUnit hs hpath⟩
    · obtain ⟨v, hv, hmem⟩ := ih hs
      exact ⟨v, List.mem_cons_of_mem u hv, hmem⟩

theorem exists_scope_of_mem_ofUnits {o : Cfg.Options} {next : ScopeId} {us : List SourceUnit}
    {c : Candidate} (hc : c ∈ (ofUnits o next us).candidates) :
    ∃ s ∈ (ofUnits o next us).scopes, s.module? = c.module? := by
  obtain ⟨_, _, _, _, _, j, -, hget⟩ := exists_site_of_mem_ofUnits hc
  exact ⟨_, List.mem_of_getElem? hget, rfl⟩

theorem exists_module_of_mem_ofUnit {o : Cfg.Options} {next : ScopeId} {u : SourceUnit}
    {root : ModulePath} (hu : u.module? = some root) {c : Candidate}
    (hc : c ∈ (ofUnit o next u).candidates) :
    ∃ s ∈ (ofUnit o next u).scopes, ∃ path, s.module? = some path ∧ c.module? = some path := by
  obtain ⟨s, _, hstands, j, -, hget⟩ := exists_site_of_mem_ofUnit hc
  have hmodule : c.module? = some (root.descend s.heads) := by
    rw [hstands.module?, Place.module?_descend]
    exact congrArg (Option.map _) hu
  exact ⟨_, List.mem_of_getElem? hget, _, hmodule, hmodule⟩

/-- In a program, a module in braces is put in where a module without a body is declared. -/
theorem exists_isInsertion_body (o : Cfg.Options) (us vs : List SourceUnit) (u : SourceUnit)
    (s : Site) {h : ModuleHead} (hitems : u.source.items = s.fill [.fileModule h])
    (head : ModuleHead) (items : List Item) :
    ∃ n, IsInsertion n (ofUnits o 0 (us ++ u :: vs))
      (ofBlock o (((Place.ofUnit u).descend o s.heads).within o head) n items)
      (ofUnits o 0 (us ++ u.withItems (s.fill [.inlineModule head items]) :: vs)) := by
  obtain ⟨a, -, -, hbefore, hput⟩ := exists_around_units o 0 us u s vs
  refine ⟨a.first 0, ?_⟩
  have hu : u = u.withItems (s.fill [.fileModule h]) := by rw [← hitems, SourceUnit.withItems]
  have hempty : ofItems o ((Place.ofUnit u).descend o s.heads) (a.own 0) (a.first 0)
      [.fileModule h] = empty := rfl
  have hblock : ofItems o ((Place.ofUnit u).descend o s.heads) (a.own 0) (a.first 0)
      [.inlineModule head items] =
        ofBlock o (((Place.ofUnit u).descend o s.heads).within o head) (a.first 0) items := by
    rw [ofItems_cons, ofItem_inlineModule]
    ext1
    · rw [scopes_append]
      exact List.append_nil _
    · rw [candidates_append]
      exact List.append_nil _
  conv => arg 2; rw [hu]
  rw [hput, hput, Imports.ofItems_surroundings_eq s rfl, Imports.ofItems_surroundings_eq s rfl,
    hempty, hblock]
  exact Around.isInsertion_put hbefore

end Declarations

theorem Program.mentions_eq_true_iff {p : Program} {name : String} :
    p.mentions name = true ↔ ∃ u ∈ p.files, name ∈ u.source.mentions := by
  rw [mentions, List.any_eq_true]
  simp only [List.contains_iff_mem]

/-- A program whose file has a module in braces mentions what it did when the module had a file. -/
theorem Program.mentions_body {o : Cfg.Options} {as bs us vs : List SourceUnit} {u w : SourceUnit}
    {s : Site} {h : ModuleHead} (hfiles : as ++ bs = us ++ u :: vs)
    (hitems : u.source.items = s.fill [.fileModule h]) (hhead : ∀ a ∈ h.attrs, a.inner = false)
    (hattrs : ∀ a ∈ w.source.attrs, a.inner = true) (name : String) :
    Program.mentions ⟨as ++ w :: bs, o⟩ name =
      Program.mentions ⟨us ++ u.withItems (s.fill [.inBraces h w.source]) :: vs, o⟩ name := by
  have hsource : ∀ x : Item, name ∈ (u.withItems (s.fill [x])).source.mentions ↔
      name ∈ (u.withItems (s.fill [])).source.mentions ∨ name ∈ x.fragment.mentions := by
    intro x
    rw [SourceFile.mentions, SourceFile.mentions, Syntax.Fragment.mentions_append,
      Syntax.Fragment.mentions_append, List.mem_append, List.mem_append,
      SourceUnit.withItems, Item.mem_mentions_fill_iff, Item.mentions_fragmentAll_cons,
      Item.mentions_fragmentAll_nil, List.append_nil]
    exact or_assoc.symm
  have hu := hsource (.fileModule h)
  rw [← hitems, show u.withItems u.source.items = u from rfl] at hu
  have hbody := hsource (.inBraces h w.source)
  rw [Item.mem_mentions_inBraces_iff hhead hattrs] at hbody
  have hsplit : ∀ (ys zs : List SourceUnit) (x : SourceUnit),
      (∃ v ∈ ys ++ x :: zs, name ∈ v.source.mentions) ↔
        name ∈ x.source.mentions ∨ ∃ v ∈ ys ++ zs, name ∈ v.source.mentions := by
    intro ys zs x
    simp only [List.perm_middle.mem_iff, List.mem_cons, or_and_right, exists_or, exists_eq_left]
  rw [Bool.eq_iff_iff, mentions_eq_true_iff, mentions_eq_true_iff, hsplit, hsplit, hfiles, hsplit,
    hu, hbody]
  simp only [or_assoc, or_left_comm]

/-- **A module in a file or in braces.** The file of a module goes, and its items are put in braces
where the module is declared. The descriptors stay the same but for their order, if no other module
goes by the path of one of the file's. -/
theorem Program.descriptors_perm_of_body {o : Cfg.Options} {as bs us vs : List SourceUnit}
    {u w : SourceUnit} {s : Site} {h : ModuleHead} {path : ModulePath}
    (hfiles : as ++ bs = us ++ u :: vs) (hitems : u.source.items = s.fill [.fileModule h])
    (hw : w.module? = some path)
    (hplace : ((Place.ofUnit u).descend o s.heads).within o (h.around w.source) =
      (Place.ofUnit w).moveTo u.path)
    (hhead : ∀ a ∈ h.attrs, a.inner = false) (hattrs : ∀ a ∈ w.source.attrs, a.inner = true)
    (halone : ∀ v ∈ as ++ bs, ∀ q ∈ v.modules, q ∉ w.modules) (m : Marker) (crateName : String) :
    (extract ⟨as ++ w :: bs, o⟩ m crateName .never).descriptors.Perm
      (extract ⟨us ++ u.withItems (s.fill [.inBraces h w.source]) :: vs, o⟩ m crateName
        .never).descriptors := by
  obtain ⟨n', hinsert'⟩ := Declarations.exists_isInsertion_body o us vs u s hitems
    (h.around w.source) w.source.items
  have hinsert := Declarations.isInsertion_ofUnits o as w bs
  rw [hfiles] at hinsert
  obtain ⟨hscopes, htwins⟩ := Declarations.ofBlock_relocate o (.ofUnit w) u.path
    (Declarations.scopeCountOf as) n' w.source.items
  rw [← hplace, ← Declarations.ofUnit_eq_ofBlock] at hscopes htwins
  rw [← Declarations.length_scopes_ofBlock o (.ofUnit w) (Declarations.scopeCountOf as),
    ← Declarations.ofUnit_eq_ofBlock] at htwins
  refine descriptors_perm_of_relocate (mentions_body hfiles hitems hhead hattrs _) hinsert hinsert'
    hscopes htwins (fun a ha => Declarations.exists_module_of_mem_ofUnit hw ha)
    (fun c hc => Declarations.exists_scope_of_mem_ofUnits hc) fun t ht q hq r hr hrq => ?_
  obtain ⟨v, hv, hmem⟩ := Declarations.modules_of_mem_scopes_ofUnits hr hrq
  exact halone v (hfiles ▸ hv) q hmem (Declarations.modules_of_mem_scopes_ofUnit ht hq)

/-! ## 2. Loading -/

theorem exists_split_of_nodup {α β : Type} {l : List (α × β)} {a : α} {b : β}
    (h : (l.map Prod.snd).Nodup) (hmem : (a, b) ∈ l) :
    ∃ xs ys, l = xs ++ (a, b) :: ys ∧ ∀ x ∈ xs ++ ys, x.2 ≠ b := by
  obtain ⟨xs, ys, rfl⟩ := List.append_of_mem hmem
  refine ⟨xs, ys, rfl, fun x hx heq => ?_⟩
  have hperm : ((xs ++ (a, b) :: ys).map Prod.snd).Perm (b :: (xs ++ ys).map Prod.snd) :=
    List.perm_middle.map Prod.snd
  exact (List.nodup_cons.mp (hperm.nodup_iff.mp h)).1 (heq ▸ List.mem_map_of_mem hx)

attribute [ext] Place

namespace FileModule

variable {d d' : Disk} {o : Cfg.Options} {scanPath : FsPath}
  {t : FileModule d o (Loading.sourceRoot scanPath)}

/-- The file with the declaration as a file of the program. -/
def outerUnit (t : FileModule d o (Loading.sourceRoot scanPath)) (path : FsPath) : SourceUnit :=
  ⟨path, some t.outerFile.module, t.outerFile.exported, t.outerFile.source⟩

/-- The file of the module as a file of the program. -/
def unit (t : FileModule d o (Loading.sourceRoot scanPath)) (path : FsPath) : SourceUnit :=
  ⟨path, some t.file.module, t.file.exported, t.file.source⟩

theorem tree_eq : (ModuleTree.ofRoot d o (Loading.sourceRoot scanPath)).tree = filesOf t.visits :=
  ModuleTree.tree_ofRoot t.searches

theorem at?_of_mem_visits {v : Visit} (hv : v ∈ t.visits) {f : TreeFile}
    (hf : v.file? = some f) : ModuleTree.at? (filesOf t.visits) f.location = some f :=
  ModuleTree.at?_of_mem t.searches.nodup (List.mem_filterMap.mpr ⟨v, hv, hf⟩)

theorem loadFile_outer {f : FsPath} (hf : d.canonical? f = some t.outerFile.location) :
    Loading.loadFile d (filesOf t.visits) f = .ok (t.outerUnit f) := by
  rw [Loading.loadFile, hf, Option.bind_some, at?_of_mem_visits t.read_outer rfl]
  rfl

theorem loadFile_file {f : FsPath} (hf : d.canonical? f = some t.file.location) :
    Loading.loadFile d (filesOf t.visits) f = .ok (t.unit f) := by
  obtain ⟨_, _, _, hc⟩ := t.exists_course
  have hmem : ⟨t.pending, some t.file⟩ ∈ t.visits := by rw [hc.visits_eq]; simp
  rw [Loading.loadFile, hf, Option.bind_some, at?_of_mem_visits hmem rfl]
  rfl

namespace Inlined

open Loading

section

variable {first between last : List Visit}

/-- The two trees have the same files, but for the two. -/
theorem at?_eq (hc : t.Course first between last) {l : Location} (houter : l ≠ t.outerFile.location)
    (hfile : l ≠ t.file.location) :
    ModuleTree.at? (filesOf (first ++ ⟨t.outer, some t.newFile⟩ :: (between ++ last))) l =
      ModuleTree.at? (filesOf t.visits) l := by
  have hnew : (t.newFile.location == l) = false := beq_eq_false_iff_ne.mpr (Ne.symm houter)
  have hold : (t.outerFile.location == l) = false := beq_eq_false_iff_ne.mpr (Ne.symm houter)
  have hgone : (t.file.location == l) = false := beq_eq_false_iff_ne.mpr (Ne.symm hfile)
  rw [hc.visits_eq]
  simp [ModuleTree.at?, filesOf, List.filterMap_append, List.find?_append, hnew, hold, hgone]

/-- All other files are loaded as they were. -/
theorem loadFile_eq (h : t.Inlined d') (hp : d.IsPlain) (hc : t.Course first between last)
    {f : FsPath} (houter : d.canonical? f ≠ some t.outerFile.location)
    (hfile : d.canonical? f ≠ some t.file.location) :
    loadFile d' (filesOf (first ++ ⟨t.outer, some t.newFile⟩ :: (between ++ last))) f =
      loadFile d (filesOf t.visits) f := by
  have hat : (d'.canonical? f).bind
      (ModuleTree.at? (filesOf (first ++ ⟨t.outer, some t.newFile⟩ :: (between ++ last)))) =
        (d.canonical? f).bind (ModuleTree.at? (filesOf t.visits)) := by
    rw [h.canonical?_of_ne hp hfile]
    cases hl : d.canonical? f with
    | none => rfl
    | some l =>
      exact at?_eq hc (fun heq => houter (heq ▸ hl)) (fun heq => hfile (heq ▸ hl))
  rw [loadFile, loadFile, hat, h.readText?_of_ne hp hfile houter]

/-- The file with the declaration is loaded with the module in braces. -/
theorem loadFile_newFile (h : t.Inlined d') (hp : d.IsPlain)
    (hnodup : ((filesOf (first ++ ⟨t.outer, some t.newFile⟩ :: (between ++ last))).map
      (·.location)).Nodup) {f : FsPath} (hf : d.canonical? f = some t.outerFile.location) :
    loadFile d' (filesOf (first ++ ⟨t.outer, some t.newFile⟩ :: (between ++ last))) f =
      .ok ((t.outerUnit f).withItems (t.site.fill [t.body])) := by
  have hl : d'.canonical? f = some t.newFile.location := by
    rw [h.canonical?_of_ne hp, hf]
    · rfl
    · rw [hf, ne_eq, Option.some.injEq]
      exact location_outer_ne
  have hmem : t.newFile ∈ filesOf (first ++ ⟨t.outer, some t.newFile⟩ :: (between ++ last)) := by
    simp [filesOf]
  rw [loadFile, hl, Option.bind_some, ModuleTree.at?_of_mem hnodup hmem]
  rfl

end

theorem locatedSources_eq (h : t.Inlined d') (hp : d.IsPlain) :
    locatedSources d' scanPath =
      (locatedSources d scanPath).filter (·.2 != t.file.location) := by
  rw [locatedSources, locatedSources, h.located_eq hp, List.filter_comm]

theorem files_scan_eq (d : Disk) (o : Cfg.Options) (scanPath : FsPath) :
    (scan d o scanPath).files = (locatedSources d scanPath).filterMap fun x =>
      (loadFile d (ModuleTree.ofRoot d o (sourceRoot scanPath)).tree x.1).toOption := by
  rw [files_scan, ← map_fst_locatedSources, List.filterMap_map]
  rfl

theorem tree_eq (h : t.Inlined d') (hp : d.IsPlain) (hpaths : t.HasNoPaths)
    (hcompiled : o.enabled t.file.source.attrs = some true) {first between last : List Visit}
    (hc : t.Course first between last) :
    (ModuleTree.ofRoot d' o (sourceRoot scanPath)).tree =
      filesOf (first ++ ⟨t.outer, some t.newFile⟩ :: (between ++ last)) :=
  ModuleTree.tree_ofRoot (h.searches hp hpaths hcompiled hc)

/-- Where the source files of the two stand in the list of all, before and after. -/
theorem exists_locatedSources (h : t.Inlined d') (hp : d.IsPlain) {f g : FsPath}
    (houter : (f, t.outerFile.location) ∈ locatedSources d scanPath)
    (hfile : (g, t.file.location) ∈ locatedSources d scanPath) :
    ∃ xs ys zs ws, locatedSources d scanPath = xs ++ (g, t.file.location) :: ys ∧
      xs ++ ys = zs ++ (f, t.outerFile.location) :: ws ∧ locatedSources d' scanPath = xs ++ ys ∧
      (∀ x ∈ xs ++ ys, d.canonical? x.1 = some x.2 ∧ x.2 ≠ t.file.location) ∧
      ∀ x ∈ zs ++ ws, x.2 ≠ t.outerFile.location := by
  have hlocs := nodup_locatedSources hp scanPath
  obtain ⟨xs, ys, hall, hothers⟩ := exists_split_of_nodup hlocs hfile
  have hkept : (locatedSources d scanPath).filter (·.2 != t.file.location) = xs ++ ys := by
    rw [hall, List.filter_append, List.filter_cons_of_neg (by simp), ← List.filter_append]
    exact List.filter_eq_self.mpr fun x hx => bne_iff_ne.mpr (hothers x hx)
  have hsub : (xs ++ ys).Sublist (locatedSources d scanPath) := hkept ▸ List.filter_sublist
  have hmem : (f, t.outerFile.location) ∈ xs ++ ys :=
    hkept ▸ List.mem_filter.mpr ⟨houter, bne_iff_ne.mpr location_outer_ne⟩
  obtain ⟨zs, ws, hrest, hothers'⟩ := exists_split_of_nodup (hlocs.sublist (hsub.map _)) hmem
  refine ⟨xs, ys, zs, ws, hall, hrest, (h.locatedSources_eq hp).trans hkept, fun x hx => ?_, hothers'⟩
  exact ⟨canonical?_of_mem_locatedSources hp (hsub.subset hx), hothers x hx⟩

/-- If neither of the two files is a source file, nothing else changes. -/
theorem files_scan_of_not_mem (h : t.Inlined d') (hp : d.IsPlain) (hpaths : t.HasNoPaths)
    (hcompiled : o.enabled t.file.source.attrs = some true)
    (houter : ∀ x ∈ locatedSources d scanPath, x.2 ≠ t.outerFile.location)
    (hfile : ∀ x ∈ locatedSources d scanPath, x.2 ≠ t.file.location) :
    (scan d' o scanPath).files = (scan d o scanPath).files := by
  obtain ⟨first, between, last, hc⟩ := t.exists_course
  have hsame : (locatedSources d scanPath).filter (·.2 != t.file.location) =
      locatedSources d scanPath := List.filter_eq_self.mpr fun x hx => bne_iff_ne.mpr (hfile x hx)
  rw [files_scan_eq, files_scan_eq, h.locatedSources_eq hp, hsame,
    h.tree_eq hp hpaths hcompiled hc, FileModule.tree_eq (t := t)]
  refine List.filterMap_congr fun x hx => ?_
  have hl := canonical?_of_mem_locatedSources hp hx
  rw [h.loadFile_eq hp hc]
  · rw [hl, ne_eq, Option.some.injEq]
    exact houter x hx
  · rw [hl, ne_eq, Option.some.injEq]
    exact hfile x hx

/-- If both are, one file of the program goes, and the other one has the module in braces. -/
theorem exists_files_scan (h : t.Inlined d') (hp : d.IsPlain) (hpaths : t.HasNoPaths)
    (hcompiled : o.enabled t.file.source.attrs = some true) {f g : FsPath}
    (houter : (f, t.outerFile.location) ∈ locatedSources d scanPath)
    (hfile : (g, t.file.location) ∈ locatedSources d scanPath) :
    ∃ as bs us vs, (scan d o scanPath).files = as ++ t.unit g :: bs ∧
      as ++ bs = us ++ t.outerUnit f :: vs ∧
      (scan d' o scanPath).files =
        us ++ (t.outerUnit f).withItems (t.site.fill [t.body]) :: vs ∧
      ∀ v ∈ as ++ bs, d.canonical? v.path ≠ some t.file.location := by
  obtain ⟨first, between, last, hc⟩ := t.exists_course
  obtain ⟨xs, ys, zs, ws, hall, hrest, hall', hothers, hothers'⟩ :=
    h.exists_locatedSources hp houter hfile
  let load (x : FsPath × Location) := (loadFile d (filesOf t.visits) x.1).toOption
  let tree' := filesOf (first ++ ⟨t.outer, some t.newFile⟩ :: (between ++ last))
  let load' (x : FsPath × Location) := (loadFile d' tree' x.1).toOption
  -- The two files are loaded as told, and on all others the two ways of loading agree.
  have hfileLoad : load (g, t.file.location) = some (t.unit g) :=
    congrArg Except.toOption (loadFile_file (canonical?_of_mem_locatedSources hp hfile))
  have houterLoad : load (f, t.outerFile.location) = some (t.outerUnit f) :=
    congrArg Except.toOption (loadFile_outer (canonical?_of_mem_locatedSources hp houter))
  have houterLoad' : load' (f, t.outerFile.location) =
      some ((t.outerUnit f).withItems (t.site.fill [t.body])) :=
    congrArg Except.toOption (h.loadFile_newFile hp (h.searches hp hpaths hcompiled hc).nodup
      (canonical?_of_mem_locatedSources hp houter))
  have hsame : ∀ x ∈ zs ++ ws, load' x = load x := by
    intro x hx
    obtain ⟨hcanon, hne⟩ := hothers x (hrest ▸ ModuleTree.mem_append_cons_of_mem hx)
    refine congrArg Except.toOption (h.loadFile_eq hp hc ?_ ?_)
    · rw [hcanon, ne_eq, Option.some.injEq]
      exact hothers' x hx
    · rw [hcanon, ne_eq, Option.some.injEq]
      exact hne
  refine ⟨xs.filterMap load, ys.filterMap load, zs.filterMap load, ws.filterMap load,
    ?_, ?_, ?_, ?_⟩
  · rw [files_scan_eq, FileModule.tree_eq (t := t), hall, List.filterMap_append,
      List.filterMap_cons_some hfileLoad]
  · rw [← List.filterMap_append, hrest, List.filterMap_append, List.filterMap_cons_some houterLoad]
  · rw [files_scan_eq, h.tree_eq hp hpaths hcompiled hc, hall', hrest,
      List.filterMap_append, List.filterMap_cons_some houterLoad',
      List.filterMap_congr fun x hx => hsame x (List.mem_append_left _ hx),
      List.filterMap_congr fun x hx => hsame x (List.mem_append_right _ hx)]
  · intro v hv
    rw [← List.filterMap_append] at hv
    obtain ⟨x, hx, hload⟩ := List.mem_filterMap.mp hv
    rw [path_of_loadFile hload, (hothers x hx).1, ne_eq, Option.some.injEq]
    exact (hothers x hx).2

end Inlined

/-! ## 3. Agreement -/

/-- The paths of the module and of the modules in braces in its file. -/
def modules (t : FileModule d o (Loading.sourceRoot scanPath)) : List ModulePath :=
  t.file.module :: modulesAll t.file.module t.file.source.items

/-- Either both files are source files of the directory or neither is. -/
def ScannedAlike (t : FileModule d o (Loading.sourceRoot scanPath)) : Prop :=
  (∃ f ∈ Loading.sourceFiles d scanPath, d.canonical? f = some t.outerFile.location) ↔
    ∃ f ∈ Loading.sourceFiles d scanPath, d.canonical? f = some t.file.location

instance (t : FileModule d o (Loading.sourceRoot scanPath)) : Decidable t.ScannedAlike :=
  inferInstanceAs (Decidable (_ ↔ _))

/-- No other file defines a module, or holds one in braces, by one of these paths. -/
def Alone (t : FileModule d o (Loading.sourceRoot scanPath)) (p : Program) : Prop :=
  ∀ u ∈ p.files, d.canonical? u.path ≠ some t.file.location → ∀ path ∈ u.modules, path ∉ t.modules

instance (t : FileModule d o (Loading.sourceRoot scanPath)) (p : Program) : Decidable (t.Alone p) :=
  inferInstanceAs (Decidable (∀ u ∈ p.files, _ → ∀ path ∈ u.modules, path ∉ t.modules))

theorem inner_of_mem_attrs : ∀ a ∈ t.file.source.attrs, a.inner = true := by
  obtain ⟨-, hparse, -, -⟩ := ModuleTree.load?_eq_some_iff.mp t.load_file
  obtain ⟨text, -, hparse⟩ := Option.bind_eq_some_iff.mp hparse
  exact (SourceFile.ensures_of_parse? hparse).1

theorem outer_of_mem_attrs : ∀ a ∈ t.head.attrs, a.inner = false := by
  obtain ⟨-, hparse, -, -⟩ := ModuleTree.load?_eq_some_iff.mp t.load?_outer
  obtain ⟨text, -, hparse⟩ := Option.bind_eq_some_iff.mp hparse
  have hitems := (SourceFile.ensures_of_parse? hparse).2
  rw [t.items_eq] at hitems
  exact (Syntax.Item.allHaveOuterHeads_iff.mp hitems.of_fill) _ (List.mem_singleton_self _)

/-- Within the braces, enums are where they were in the file of the module. -/
theorem place_body (hpaths : t.HasNoPaths) (hcompiled : o.enabled t.file.source.attrs = some true)
    (f g : FsPath) :
    ((Place.ofUnit (t.outerUnit f)).descend o t.site.heads).within o
      (t.head.around t.file.source) = (Place.ofUnit (t.unit g)).moveTo f := by
  obtain ⟨-, -, hmodule, hexported⟩ := ModuleTree.load?_eq_some_iff.mp t.load?_outer
  obtain ⟨-, -, hmodule', hexported'⟩ := ModuleTree.load?_eq_some_iff.mp t.load_file
  have hunit : (Place.ofUnit (t.outerUnit f)).Agrees (.ofPending t.outer) :=
    ⟨congrArg some hmodule, hexported, rfl⟩
  have hheads : ∀ h ∈ t.site.heads, ModulePlace.isEnabled o h = true :=
    fun h hh => t.enabled h (List.mem_append_left _ hh)
  have hdown := (Place.agrees_descend hunit hheads).within (Inlined.isEnabled_body hcompiled)
  obtain ⟨dir, hwithin⟩ := Inlined.within_body hpaths
  rw [← place, hwithin] at hdown
  ext1
  · exact Place.file_descend o _ _
  · exact hdown.module?.trans (congrArg some hmodule'.symm)
  · exact hdown.exported.trans hexported'.symm
  · exact hdown.enabled

/-- **Files and braces.** A module without a body is declared where the search for the files of a
crate comes to, and no other declaration leads to its file. If the declaration is replaced by the
module in braces, and the file is removed, the program can still be loaded, and it has the same
descriptors but for their order. This takes that attributes at the start of the file do not leave
the module out of the build, that no other module goes by its path or by that of one it holds, and
that it makes no difference which of the two files is a source file. -/
theorem extract_body (t : FileModule d o (Loading.sourceRoot scanPath)) {p : Program}
    (hp : d.IsPlain) (hload : (Program.load d o [scanPath]).2 = .ok p) (hpaths : t.HasNoPaths)
    (hcompiled : o.enabled t.file.source.attrs = some true) (hscanned : t.ScannedAlike)
    (halone : t.Alone p) (h : t.Inlined d') :
    ∃ p', (Program.load d' o [scanPath]).2 = .ok p' ∧ ∀ (m : Marker) (crateName : String),
      (p.extract m crateName .never).descriptors.Perm (p'.extract m crateName .never).descriptors := by
  obtain ⟨hdir, rfl⟩ := Loading.load_eq_ok_iff.mp hload
  refine ⟨Loading.program d' o scanPath,
    Loading.load_eq_ok_iff.mpr ⟨(h.isDirectory_eq hp scanPath).trans hdir, rfl⟩,
    fun m crateName => ?_⟩
  rw [ScannedAlike, Loading.exists_mem_locatedSources_iff hp,
    Loading.exists_mem_locatedSources_iff hp] at hscanned
  by_cases hfile : ∃ g, (g, t.file.location) ∈ Loading.locatedSources d scanPath
  · obtain ⟨f, hf⟩ := hscanned.mpr hfile
    obtain ⟨g, hg⟩ := hfile
    obtain ⟨as, bs, us, vs, hfiles, hrest, hfiles', hnot⟩ :=
      h.exists_files_scan hp hpaths hcompiled hf hg
    rw [Loading.program, Loading.program, hfiles, hfiles']
    refine Program.descriptors_perm_of_body (w := t.unit g) hrest t.items_eq rfl
      (place_body hpaths hcompiled f g) outer_of_mem_attrs inner_of_mem_attrs (fun v hv => ?_) m
      crateName
    refine halone v ?_ (hnot v hv)
    rw [Loading.program, hfiles]
    exact ModuleTree.mem_append_cons_of_mem hv
  · have houter : ¬ ∃ f, (f, t.outerFile.location) ∈ Loading.locatedSources d scanPath :=
      fun hf => hfile (hscanned.mp hf)
    rw [Loading.program, Loading.program, h.files_scan_of_not_mem hp hpaths hcompiled]
    · exact fun x hx heq => houter ⟨x.1, heq ▸ hx⟩
    · exact fun x hx heq => hfile ⟨x.1, heq ▸ hx⟩

end FileModule

namespace Inlining

/-- A module whose file starts with an attribute that keeps it in the build. -/
@[irreducible] def kept : Inlining .none (Loading.sourceRoot ⟨"src"⟩) :=
  (ofTexts? .none _
    [("src/lib.rs", "pub mod m;"), ("src/m.rs", "#![cfg(all())] #[a::b] pub enum D { E }")]
    "pub mod m { #![cfg(all())] #[a::b] pub enum D { E } }").get (by decide +kernel)

theorem extract_body_kept :
    let t := kept.module
    let p := Loading.program kept.before .none ⟨"src"⟩
    ((Program.load kept.before .none [⟨"src"⟩]).2 = .ok p ∧ t.HasNoPaths ∧
      Cfg.Options.none.enabled t.file.source.attrs = some true ∧ t.ScannedAlike ∧ t.Alone p ∧
      (p.extract ⟨["a", "b"]⟩ "crate" .never).descriptors = [⟨"crate::m::D", none⟩]) ∧
    ∃ p', (Program.load kept.after .none [⟨"src"⟩]).2 = .ok p' ∧
      ∀ (m : Marker) (crateName : String), (p.extract m crateName .never).descriptors.Perm
        (p'.extract m crateName .never).descriptors := by
  obtain ⟨hdir, hpaths, hcompiled, hscanned, halone, hdescriptors⟩ :
      kept.before.isDirectory ⟨"src"⟩ = true ∧ kept.module.HasNoPaths ∧
        Cfg.Options.none.enabled kept.module.file.source.attrs = some true ∧
        kept.module.ScannedAlike ∧
        kept.module.Alone (Loading.program kept.before .none ⟨"src"⟩) ∧
        ((Loading.program kept.before .none ⟨"src"⟩).extract ⟨["a", "b"]⟩ "crate"
          .never).descriptors = [⟨"crate::m::D", none⟩] := by
    decide +kernel
  have hload := (Loading.load_eq_ok_iff (o := .none)).mpr ⟨hdir, rfl⟩
  exact ⟨⟨hload, hpaths, hcompiled, hscanned, halone, hdescriptors⟩,
    FileModule.extract_body kept.module kept.isPlain hload hpaths hcompiled hscanned
      halone kept.inlined⟩

variable {o : Cfg.Options} {scanPath : FsPath}

/-- Both programs can be loaded, and for a marker they have these descriptors. -/
structure Turns (i : Inlining o (Loading.sourceRoot scanPath)) (m : Marker)
    (old new : List Descriptor) : Prop where
  load_before : (Program.load i.before o [scanPath]).2 = .ok (Loading.program i.before o scanPath)
  load_after : (Program.load i.after o [scanPath]).2 = .ok (Loading.program i.after o scanPath)
  extract_before :
    ((Loading.program i.before o scanPath).extract m "crate" .never).descriptors = old
  extract_after : ((Loading.program i.after o scanPath).extract m "crate" .never).descriptors = new

theorem turns_iff {i : Inlining o (Loading.sourceRoot scanPath)} {m : Marker}
    {old new : List Descriptor} : i.Turns m old new ↔
      i.before.isDirectory scanPath = true ∧ i.after.isDirectory scanPath = true ∧
        ((Loading.program i.before o scanPath).extract m "crate" .never).descriptors = old ∧
        ((Loading.program i.after o scanPath).extract m "crate" .never).descriptors = new :=
  ⟨fun ⟨hb, ha, hold, hnew⟩ => ⟨(Loading.load_eq_ok_iff.mp hb).1, (Loading.load_eq_ok_iff.mp ha).1,
      hold, hnew⟩,
    fun ⟨hb, ha, hold, hnew⟩ => ⟨Loading.load_eq_ok_iff.mpr ⟨hb, rfl⟩,
      Loading.load_eq_ok_iff.mpr ⟨ha, rfl⟩, hold, hnew⟩⟩

instance (i : Inlining o (Loading.sourceRoot scanPath)) (m : Marker)
    (old new : List Descriptor) : Decidable (i.Turns m old new) :=
  decidable_of_iff _ turns_iff.symm

/-- A module that an attribute at the start of its file leaves out of the build. -/
@[irreducible] def leftOut : Inlining .none (Loading.sourceRoot ⟨"src"⟩) :=
  (ofTexts? .none _
    [("src/lib.rs", "pub mod m;"), ("src/m.rs", "#![cfg(any())] #[a::b] pub enum D { E }")]
    "pub mod m { #![cfg(any())] #[a::b] pub enum D { E } }").get (by decide +kernel)

/-- A module whose file is no source file, because of where it stands. -/
@[irreducible] def inTarget : Inlining .none (Loading.sourceRoot ⟨"src"⟩) :=
  (ofTexts? .none _
    [("src/lib.rs", "pub mod target { pub mod m; }"),
      ("src/target/m.rs", "#[a::b] pub enum D { E }")]
    "pub mod target { pub mod m { #[a::b] pub enum D { E } } }").get (by decide +kernel)

/-- A module that has a twin in braces, which is left out of the build. -/
@[irreducible] def besideTwin : Inlining .none (Loading.sourceRoot ⟨"src"⟩) :=
  (ofTexts? .none _
    [("src/lib.rs", "mod m; #[cfg(any())] mod m {} #[m::b] enum D { E }"),
      ("src/m.rs", "use a::b;")]
    "mod m { use a::b; } #[cfg(any())] mod m {} #[m::b] enum D { E }").get (by decide +kernel)

/-- None of the three conditions can be left out: with the other two, the descriptors change. -/
theorem turns_leftOut_inTarget_besideTwin :
    (leftOut.Turns ⟨["a", "b"]⟩ [⟨"crate::m::D", none⟩] [] ∧ leftOut.module.HasNoPaths ∧
      Cfg.Options.none.enabled leftOut.module.file.source.attrs = some false ∧
      leftOut.module.ScannedAlike ∧
      leftOut.module.Alone (Loading.program leftOut.before .none ⟨"src"⟩)) ∧
    (inTarget.Turns ⟨["a", "b"]⟩ [] [⟨"crate::target::m::D", none⟩] ∧
      inTarget.module.HasNoPaths ∧
      Cfg.Options.none.enabled inTarget.module.file.source.attrs = some true ∧
      ¬ inTarget.module.ScannedAlike ∧
      inTarget.module.Alone (Loading.program inTarget.before .none ⟨"src"⟩)) ∧
    (besideTwin.Turns ⟨["a", "b"]⟩ [] [⟨"crate::D", none⟩] ∧ besideTwin.module.HasNoPaths ∧
      Cfg.Options.none.enabled besideTwin.module.file.source.attrs = some true ∧
      besideTwin.module.ScannedAlike ∧
      ¬ besideTwin.module.Alone (Loading.program besideTwin.before .none ⟨"src"⟩)) :=
  ⟨by decide +kernel, by decide +kernel, by decide +kernel⟩

end Inlining

end EnumCatalog
