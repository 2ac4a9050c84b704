import EnumCatalog.Generator
import EnumCatalog.Proofs.DiskChanges
import EnumCatalog.Proofs.Equality
import EnumCatalog.Proofs.Insertion
import EnumCatalog.Proofs.QualifiedPath
import EnumCatalog.Proofs.Resolution
import EnumCatalog.Proofs.ScannedFiles
import EnumCatalog.Proofs.UnsharedFiles

/-!
# Every declared enum is registered

From the root file of a crate, declarations of modules lead to an enum: through files and modules in
braces, all of which are compiled and can be named from the crate root (`ModuleTree.LeadsTo`). If
none of the files is shared with another module, and the last one is a source file of a directory
that is scanned, then a generation registers the enum under the path that the chain of modules
spells (`Generator.generate_registers`).

Four parts come together. The search keeps the file as the module of the chain, and loading makes it
a file of the program with this module (`Loading.exists_unit`). An enum at a site of a file is a
candidate in the scope around it (`Program.exists_candidate`). Of candidates, extraction registers
those that deserve it, and all that it extracts can be rendered. A file that two declarations name
is registered under one of the two modules only (`Generator.not_registers_sharedFile`).
-/

set_option autoImplicit false

namespace EnumCatalog

open Syntax (Item Enum ModuleHead NamePath SourceFile Visibility)
open ModuleTree (Chain KeptIn Reads Unshared)

/-! ## 1. Candidates -/

namespace Scopes

/-- The number of a scope matters for nothing but the scope that it is of. -/
theorem resolve_eq_of_get?_eq {ss : Scopes} {i j : ScopeId} (h : ss.get? i = ss.get? j)
    (p : Syntax.Path) : ss.resolve i p = ss.resolve j p := by
  have halike : ss.Alike (fun i j => ss.get? i = ss.get? j) ss := by
    refine ⟨fun i j hij => ?_, fun i j hij name => ?_, fun i j hij => ?_, fun m => ?_⟩
    · rw [moduleOf?, moduleOf?, hij]
    · rw [targetOf?, targetOf?, hij]
    · rw [globsOf, globsOf, hij]
    · cases ss.idOf? m with
      | none => exact Option.Rel.none
      | some id => exact Option.Rel.some rfl
  exact halike.resolve_eq h p

end Scopes

/-- The scope around a site has the number that is its own. -/
theorem Declarations.Around.get?_put (a : Around) (is : Imports) (x : Declarations) :
    Scopes.get? ⟨(a.put 0 is x).scopes⟩ (a.own 0) = some ⟨a.module?, is⟩ := by
  rw [Scopes.get?, own, Nat.zero_add]
  simp [put, scopesBefore]

namespace Program

variable {p : Program}

/-- Of candidates that are not left out of the build, one is the first of its declaration. -/
theorem exists_firstOf? {c : Candidate} (hc : c ∈ p.declarations.candidates)
    (he : c.enabled ≠ some false) : ∃ first, p.firstOf? c = some first := by
  refine Option.isSome_iff_exists.mp (List.find?_isSome.mpr ⟨c, ?_, beq_self_eq_true _⟩)
  exact List.mem_filter.mpr ⟨hc, bne_iff_ne.mpr he⟩

/-- An enum at a site of a file is a candidate, in the scope of the items around it. -/
theorem exists_candidate {u : SourceUnit} (hu : u ∈ p.files) {s : Site} {e : Enum}
    (hfill : s.fill [.enum e] = u.source.items) (hattrs : e.attrs ≠ []) :
    ∃ c ∈ p.declarations.candidates, c.enum = e ∧
      Declarations.StandsAt p.options (.ofUnit u) s c ∧
      p.scopes.get? c.scope = some ⟨c.module?, .ofItems (s.surroundings [.enum e])⟩ := by
  obtain ⟨us, vs, hfiles⟩ := List.append_of_mem hu
  obtain ⟨a, -, -, -, hput⟩ := Declarations.exists_around_units p.options 0 us u s vs
  have hsame : u.withItems (s.fill [.enum e]) = u := by
    rw [hfill]
    rfl
  have hdeclarations : p.declarations = a.put 0 (.ofItems (s.surroundings [.enum e]))
      (Declarations.ofItems p.options ((Place.ofUnit u).descend p.options s.heads) (a.own 0)
        (a.first 0) [.enum e]) := by
    rw [← hput, hsame, ← hfiles]
    rfl
  let place := (Place.ofUnit u).descend p.options s.heads
  let c : Candidate := ⟨place.file, place.module?, a.own 0, e, place.exports e.vis,
    place.enabled.and (p.options.enabled e.attrs)⟩
  have hcandidate : Declarations.isCandidate e = true := by
    simpa [Declarations.isCandidate] using hattrs
  have hitems : Declarations.ofItems p.options place (a.own 0) (a.first 0) [.enum e] =
      ⟨[], [c]⟩ := by
    rw [Declarations.ofItems, Declarations.ofItem, Declarations.ofEnum, if_pos hcandidate]
    rfl
  rw [hitems] at hdeclarations
  have hc : c ∈ p.declarations.candidates := by
    rw [hdeclarations]
    exact List.mem_append_left _ (List.mem_append_right _ (List.mem_singleton_self c))
  have hscope : p.scopes.get? c.scope = some ⟨a.module?, .ofItems (s.surroundings [.enum e])⟩ := by
    rw [scopes, hdeclarations]
    exact a.get?_put _ _
  -- The module of that scope is the one that the candidate has.
  obtain ⟨_, -, _, -, -, j, hj, hget⟩ := Declarations.exists_site_of_mem_ofUnits hc
  have hmodule : a.module? = c.module? := by
    rw [Nat.zero_add] at hj
    rw [Scopes.get?, hj] at hscope
    exact congrArg Scope.module? (Option.some.inj (hscope.symm.trans hget))
  have hfile : c.file = u.path := Place.file_descend _ _ _
  exact ⟨c, hc, rfl, ⟨hcandidate, hfile, rfl, rfl, rfl⟩, hmodule ▸ hscope⟩

end Program

/-! ## 2. Loading -/

namespace ModuleTree

variable {d : Disk} {o : Cfg.Options} {root : FsPath}

/-- The modules of a chain are called by names, if those in the files on it are. -/
theorem Chain.not_mem_neverRaw {holds : List ModuleHead → FsPath → FsPath → SourceFile → Prop}
    (hholds : ∀ hs file dir source, holds hs file dir source → Item.AllHaveNames source.items)
    {hs : List ModuleHead} {file dir : FsPath} (hchain : Chain d root holds hs file dir) :
    ∀ h ∈ hs, h.ident.name ∉ neverRaw := by
  induction hchain with
  | lib _ => exact fun h hh => absurd hh List.not_mem_nil
  | main _ _ => exact fun h hh => absurd hh List.not_mem_nil
  | @declared hs file dir _ _ source s h _ hsource hfill _ ih =>
    obtain ⟨hheads, hlast⟩ := Item.AllHaveNames.of_fill (hfill ▸ hholds hs file dir source hsource)
    have hname := Item.allHaveNames_iff.mp hlast _ (List.mem_singleton_self _)
    rw [Item.HasNames] at hname
    refine List.forall_mem_append.mpr ⟨ih, List.forall_mem_append.mpr ⟨hheads, ?_⟩⟩
    exact List.forall_mem_singleton.mpr hname

theorem allHaveNames_of_mem {f : TreeFile} (hf : f ∈ (ofRoot d o root).tree) :
    Item.AllHaveNames f.source.items := by
  obtain ⟨_, hload, -⟩ := justified_of_mem hf
  obtain ⟨-, hparse, -⟩ := load?_eq_some_iff.mp hload
  obtain ⟨text, -, hparse⟩ := Option.bind_eq_some_iff.mp hparse
  exact SourceFile.allHaveNames_of_parse? hparse

/-- The module that a file is kept as is called by names. -/
theorem isPathName_of_mem {f : TreeFile} (hf : f ∈ (ofRoot d o root).tree) :
    ∀ n ∈ f.module.names, IsPathName n := by
  obtain ⟨_, hload, hs, hchain, hfits, -⟩ := justified_of_mem hf
  obtain ⟨-, -, hmodule, -⟩ := load?_eq_some_iff.mp hload
  rw [hmodule, hfits.module]
  intro n hn
  obtain ⟨h, hh, rfl⟩ := List.mem_map.mp hn
  refine ⟨isIdentName_ident _, hchain.not_mem_neverRaw ?_ h hh⟩
  rintro _ _ _ _ ⟨g, hg, -, -, rfl⟩
  exact allHaveNames_of_mem hg

end ModuleTree

namespace Loading

variable {d : Disk} {o : Cfg.Options} {scanPaths : List FsPath}

/-- A file that the search keeps, and that stands where sources do, is a file of the program. -/
theorem exists_unit (hp : d.IsPlain) {scanPath : FsPath} (hscan : scanPath ∈ scanPaths)
    (hdir : d.isDirectory scanPath = true) {base : Location}
    (hbase : d.canonical? scanPath = some base) {f : TreeFile}
    (hf : f ∈ (ModuleTree.ofRoot d o (sourceRoot scanPath)).tree)
    (hsource : HoldsSource d base f.location) :
    ∃ u ∈ (programOf d o scanPaths).files, u.module? = some f.module ∧
      u.exported = f.exported ∧ u.source = f.source := by
  obtain ⟨path, hpath, hl⟩ := (exists_mem_sourceFiles_iff hp hbase hdir).mpr hsource
  have hnodup := ModuleTree.nodup_ofRoot d o (sourceRoot scanPath)
  have hload : loadFile d (ModuleTree.ofRoot d o (sourceRoot scanPath)).tree path =
      .ok ⟨path, some f.module, f.exported, f.source⟩ := by
    rw [loadFile, hl, Option.bind_some, ModuleTree.at?_of_mem hnodup hf]
  refine ⟨⟨path, some f.module, f.exported, f.source⟩,
    List.mem_flatMap.mpr ⟨scanPath, hscan, ?_⟩, rfl, rfl, rfl⟩
  rw [files_scan, List.mem_filterMap]
  exact ⟨path, hpath, congrArg Except.toOption hload⟩

/-- What is loaded has been read from texts, so names can be written where there are some. -/
theorem hasPathNames_programOf (d : Disk) (o : Cfg.Options) (scanPaths : List FsPath) :
    (programOf d o scanPaths).HasPathNames := by
  intro u hu
  obtain ⟨scanPath, -, hu⟩ := List.mem_flatMap.mp hu
  rw [files_scan, List.mem_filterMap] at hu
  obtain ⟨path, -, hload⟩ := hu
  -- A file is taken from the tree, or it is parsed here and stands outside of all modules.
  unfold loadFile at hload
  split at hload
  · rename_i f hfound
    obtain ⟨l, -, hat⟩ := Option.bind_eq_some_iff.mp hfound
    have hf := List.mem_of_find?_eq_some hat
    obtain rfl := Option.some.inj hload
    refine ⟨fun m hm => ?_, ModuleTree.allHaveNames_of_mem hf⟩
    obtain rfl := Option.some.inj hm
    exact ModuleTree.isPathName_of_mem hf
  · split at hload
    · cases hload
    · split at hload
      · cases hload
      · rename_i source hparse
        obtain rfl := Option.some.inj hload
        refine ⟨fun m hm => ?_, SourceFile.allHaveNames_of_parse? hparse⟩
        cases hm

end Loading

/-! ## 3. Generation -/

theorem Extraction.aborted_pass_never (examine : Candidate → List Note × Option Descriptor)
    (found : Nat) (cs : List Candidate) : (pass .never examine found cs).aborted = false := by
  induction cs generalizing found with
  | nil => rfl
  | cons c cs ih =>
    rw [pass, if_neg (by simp [Cancellation.isDue, Cancellation.never])]
    exact ih _

theorem Program.aborted_extract_never (p : Program) (m : Marker) (crateName : String) :
    (p.extract m crateName .never).aborted = false := by
  unfold extract
  split
  · exact Extraction.aborted_pass_never _ _ _
  · rfl

namespace Generator

/-- The program that a generation loads. -/
def program (g : Generator) (d : Disk) (env : Environment) : Program :=
  Loading.programOf d (g.effectiveOptions env) g.effectiveScanPaths

section

variable {g : Generator} {d : Disk} {env : Environment}

/-- What of the log goes into the artifact. -/
def shownLog (g : Generator) (e : Extraction) : Option (List String) :=
  if g.diagnostics then some (e.log.map Note.text) else none

theorem generateFrom_eq_ok_iff (hnever : g.cancellation = .never) {m : Marker}
    {runtime : Syntax.Path} {p : Program} {x : Generated} :
    (g.generateFrom m runtime p).result = .ok x ↔ ∃ code,
      Artifact.render (p.extract m g.crateName .never).descriptors runtime
        (g.shownLog (p.extract m g.crateName .never)) = .ok code ∧
      x = ⟨some code, (p.extract m g.crateName .never).descriptors, false⟩ := by
  simp only [generateFrom, hnever, Program.aborted_extract_never, Bool.false_eq_true, if_false]
  rw [← shownLog]
  cases Artifact.render (p.extract m g.crateName .never).descriptors runtime
    (g.shownLog (p.extract m g.crateName .never)) with
  | error e => simp
  | ok code =>
    simp only [Except.ok.injEq, exists_eq_left']
    exact eq_comm

/-- What a generation comes to. -/
theorem generate_eq_ok_iff (hnever : g.cancellation = .never) {x : Generated} :
    (g.generate d env).result = .ok x ↔ ∃ m runtime code, Marker.parse g.marker = .ok m ∧
      Syntax.Path.parse? g.runtimeCrate = some runtime ∧
      (∀ s ∈ g.effectiveScanPaths, d.isDirectory s = true) ∧
      Artifact.render ((g.program d env).extract m g.crateName .never).descriptors runtime
        (g.shownLog ((g.program d env).extract m g.crateName .never)) = .ok code ∧
      x = ⟨some code, ((g.program d env).extract m g.crateName .never).descriptors, false⟩ := by
  unfold generate
  cases hm : Marker.parse g.marker with
  | error e => simp
  | ok m =>
    cases hr : Syntax.Path.parse? g.runtimeCrate with
    | none => simp
    | some runtime =>
      -- If all paths are directories, loading comes to the one program there is; if not, it fails.
      have hload : ∀ p, (Program.load d (g.effectiveOptions env) g.effectiveScanPaths).2 = .ok p ↔
          (∀ s ∈ g.effectiveScanPaths, d.isDirectory s = true) ∧ p = g.program d env :=
        fun _ => Loading.load_eq_ok_iff_forall
      generalize Program.load d (g.effectiveOptions env) g.effectiveScanPaths = r at hload
      obtain ⟨events, s | p⟩ := r
      · have hdirs : ¬ ∀ s ∈ g.effectiveScanPaths, d.isDirectory s = true := by
          intro hdirs
          have hok := (hload (g.program d env)).mpr ⟨hdirs, rfl⟩
          cases hok
        simp [hdirs]
      · obtain ⟨hdirs, rfl⟩ := (hload p).mp rfl
        refine (generateFrom_eq_ok_iff hnever).trans ⟨?_, ?_⟩
        · rintro ⟨code, hrender, hx⟩
          exact ⟨m, runtime, code, rfl, rfl, hdirs, hrender, hx⟩
        · rintro ⟨_, _, code, hm', hr', -, hrender, hx⟩
          obtain rfl := Except.ok.inj hm'
          obtain rfl := Option.some.inj hr'
          exact ⟨code, hrender, hx⟩

end

/-- The settings of a generator can be read, the directories that it scans are there, and nothing
cancels it. -/
structure Ready (g : Generator) (d : Disk) (m : Marker) (crate : NamePath)
    (runtime : Syntax.Path) : Prop where
  marker : Marker.parse g.marker = .ok m
  crateName : g.crateName = crate.text
  runtime : Syntax.Path.parse? g.runtimeCrate = some runtime
  directories : ∀ s ∈ g.effectiveScanPaths, d.isDirectory s = true
  cancellation : g.cancellation = .never

variable {g : Generator} {d : Disk} {m : Marker} {crate : NamePath} {runtime : Syntax.Path}

/-- A generation that is not in want of anything comes to code. -/
theorem Ready.exists_code (h : g.Ready d m crate runtime) (env : Environment) :
    ∃ code, (g.generate d env).result = .ok ⟨some code,
      ((g.program d env).extract m g.crateName .never).descriptors, false⟩ := by
  have hnames : (g.program d env).HasPathNames := Loading.hasPathNames_programOf _ _ _
  obtain ⟨code, hcode⟩ := hnames.exists_render_extract m crate runtime .never
    (g.shownLog ((g.program d env).extract m g.crateName .never))
  rw [← h.crateName] at hcode
  exact ⟨code, (generate_eq_ok_iff h.cancellation).mpr
    ⟨m, runtime, code, h.marker, h.runtime, h.directories, hcode, rfl⟩⟩

end Generator

/-! ## 4. Registration -/

theorem ModulePath.allNameable_append {m : ModulePath} {hs gs : List ModuleHead}
    {vis : Visibility} :
    m.AllNameable (hs ++ gs) vis ↔ m.NameableAlong hs ∧ (m.descend hs).AllNameable gs vis := by
  induction hs generalizing m with
  | nil => simp [nameableAlong_nil]
  | cons h hs ih => rw [List.cons_append, AllNameable, ih, nameableAlong_cons, descend_cons,
      and_assoc]

/-- Declarations of modules lead to an enum that is compiled, not generic, and can be named from the
crate root by what is written along the chain. Something holds of the files on the way, the one of
the enum included. -/
structure ModuleTree.LeadsTo (d : Disk) (o : Cfg.Options) (root : FsPath)
    (holds : List ModuleHead → FsPath → FsPath → SourceFile → Prop) (hs : List ModuleHead)
    (file : FsPath) (s : Site) (e : Enum) : Prop where
  declared : ∃ dir source, Chain d root holds hs file dir ∧ holds hs file dir source ∧
    s.fill [.enum e] = source.items
  modules : ∀ h ∈ hs ++ s.heads, o.enabled h.attrs = some true
  compiled : o.enabled e.attrs = some true
  nameable : ModulePath.root.AllNameable (hs ++ s.heads) e.vis
  notGeneric : e.isGeneric = false

/-- Where the items of the root file of a library stand. -/
def ModulePlace.ofLibrary (root : FsPath) : ModulePlace :=
  .ofPending ⟨root.join ⟨"lib.rs"⟩, .root, true, root⟩

/-- An enum that stands by itself in the file of a module which the root file declares. -/
theorem ModuleTree.leadsTo_of_declared {d : Disk} {o : Cfg.Options} {root file : FsPath}
    {holds : List ModuleHead → FsPath → FsPath → SourceFile → Prop} (dir : FsPath)
    (before after : List Item)
    {h : ModuleHead} {e : Enum}
    (hroot : holds [] (root.join ⟨"lib.rs"⟩) root ⟨[], before ++ [.fileModule h] ++ after⟩)
    (hfile : holds [h] file dir ⟨[], [.enum e]⟩)
    (hall : d.isFile (root.join ⟨"lib.rs"⟩) = true ∧
      (((ModulePlace.ofLibrary root).pendingOf d h).file = file ∧
        ((ModulePlace.ofLibrary root).pendingOf d h).childrenDir = dir) ∧
      o.enabled h.attrs = some true ∧ o.enabled e.attrs = some true ∧
      ModulePath.root.nameableFromRoot h.vis = true ∧
      (ModulePath.root.child h.ident.name).nameableFromRoot e.vis = true ∧ e.isGeneric = false) :
    LeadsTo d o root holds [h] file (.here [] []) e := by
  obtain ⟨hlib, hnames, hmodule, hcompiled, hvis, hnameable, hgeneric⟩ := hall
  have hnamed := ModulePlace.namesFile_iff.mpr hnames
  have hchain : Chain d root holds ([] ++ ((Site.here before after).heads ++ [h])) file dir := by
    refine .declared (.lib hlib) hroot rfl ?_
    rw [if_pos (show (Site.here before after).heads = [] from rfl)]
    exact hnamed
  exact ⟨⟨dir, _, hchain, hfile, rfl⟩, List.forall_mem_singleton.mpr hmodule, hcompiled,
    ⟨hvis, hnameable⟩, hgeneric⟩

/-- What the tree holds of a file is what is read from it. -/
theorem ModuleTree.reads_of_mem {d : Disk} {o : Cfg.Options} {root file : FsPath} {f : TreeFile}
    (hf : f ∈ (ofRoot d o root).tree) (hfile : d.canonical? file = some f.location)
    (hs : List ModuleHead) (dir : FsPath) : Reads d hs file dir f.source := by
  obtain ⟨_, hload, -⟩ := justified_of_mem hf
  obtain ⟨hother, hparse, -⟩ := load?_eq_some_iff.mp hload
  show (d.readText? file).bind _ = _
  rw [Disk.readText?_eq, hfile, ← hother, ← Disk.readText?_eq]
  exact hparse

/-- A file is a source file of the directory that is scanned. -/
def Loading.Scans (d : Disk) (scanPath file : FsPath) : Prop :=
  ∃ base l, d.canonical? scanPath = some base ∧ d.canonical? file = some l ∧ HoldsSource d base l

/-- One of an enum's attributes is the marker where its scope is that of a module with imports. -/
def Program.TaggedIn (p : Program) (m : Marker) (path : ModulePath) (is : Imports) (e : Enum) :
    Prop :=
  ∃ id, p.scopes.get? id = some ⟨some path, is⟩ ∧
    ∃ a ∈ e.attrs, m.segments ∈ p.scopes.resolve id a.name

/-- A tagged enum to which unshared files lead is a candidate that deserves a descriptor. -/
theorem Program.exists_acceptable {d : Disk} {o : Cfg.Options} {scanPaths : List FsPath}
    {scanPath file : FsPath} {hs : List ModuleHead} {s : Site} {e : Enum} {m : Marker}
    (hplain : d.IsPlain) (hscan : scanPath ∈ scanPaths) (hdir : d.isDirectory scanPath = true)
    (hleads : ModuleTree.LeadsTo d o (Loading.sourceRoot scanPath)
      (Unshared d o (Loading.sourceRoot scanPath)
        (ModuleTree.ofRoot d o (Loading.sourceRoot scanPath)).tree) hs file s e)
    (hfile : Loading.Scans d scanPath file)
    (htagged : (Loading.programOf d o scanPaths).TaggedIn m
      (ModulePath.root.descend (hs ++ s.heads)) (.ofItems (s.surroundings [.enum e])) e) :
    ∃ c ∈ (Loading.programOf d o scanPaths).declarations.candidates, c.enum = e ∧
      c.Acceptable (Loading.programOf d o scanPaths).scopes m
        (ModulePath.root.descend (hs ++ s.heads)) := by
  obtain ⟨dir, source, hchain, hunshared, hfill⟩ := hleads.declared
  obtain ⟨hheads, hinner⟩ := List.forall_mem_append.mp hleads.modules
  obtain ⟨hnameable, hall⟩ := ModulePath.allNameable_append.mp hleads.nameable
  obtain ⟨id, hid, a, ha, hmarker⟩ := htagged
  -- The file is kept, and it is loaded as the module of the chain.
  obtain ⟨f, hf, hlocation, rfl, hmodule, hexported⟩ :=
    ModuleTree.exists_kept_of_unshared hchain hunshared hheads
  obtain ⟨base, l, hbase, hl, hsource⟩ := hfile
  obtain rfl : l = f.location := Option.some.inj (hl.symm.trans hlocation)
  obtain ⟨u, hu, humodule, huexported, husource⟩ :=
    Loading.exists_unit hplain hscan hdir hbase hf hsource
  obtain ⟨c, hc, rfl, hstands, hget⟩ :=
    Program.exists_candidate hu (husource ▸ hfill) (List.ne_nil_of_mem ha)
  have hcmodule : c.module? = some (ModulePath.root.descend (hs ++ s.heads)) := by
    rw [hstands.module?, Place.module?_descend, ModulePath.descend_append, ← hmodule]
    exact congrArg (Option.map _) humodule
  refine ⟨c, hc, rfl, hcmodule, hleads.notGeneric, ?_, ?_, a, ha, ?_⟩
  · rw [hstands.enabled, Cfg.Verdict.and_eq_true_iff, Place.enabled_descend_iff]
    exact ⟨⟨rfl, hinner⟩, hleads.compiled⟩
  · rw [hstands.visible, Place.exports_descend_iff]
    refine ⟨huexported.trans (hexported.mpr hnameable), f.module, humodule, ?_⟩
    rw [hmodule]
    exact hall
  · rw [hcmodule] at hget
    rw [Scopes.resolve_eq_of_get?_eq (hget.trans hid.symm)]
    exact hmarker

namespace Generator

variable {g : Generator} {d : Disk} {m : Marker} {crate : NamePath} {runtime : Syntax.Path}

/-- The generator for the directory `src` and the marker `a::b`, without options. -/
def ofSrc : Generator :=
  { standard with scanPaths := [⟨"src"⟩], marker := "a::b", options := some .none }

theorem ready_ofSrc (hdir : d.isDirectory ⟨"src"⟩ = true) :
    ofSrc.Ready d ⟨["a", "b"]⟩ ⟨false, .plain "crate", [], by decide⟩
      Artifact.pgenumPath.toPath := by
  obtain ⟨hmarker, htokens⟩ : Marker.parse ofSrc.marker = .ok ⟨["a", "b"]⟩ ∧
      Lexer.tokens? ofSrc.runtimeCrate = some Artifact.pgenumPath.tokens := by
    decide +kernel
  exact ⟨hmarker, rfl, Artifact.pgenumPath.parse?_of_tokens htokens,
    List.forall_mem_singleton.mpr hdir, rfl⟩

theorem sourceRoot_src : Loading.sourceRoot ⟨"src"⟩ = ⟨"src"⟩ := by decide +kernel

/-- The program that is loaded from the directory, given the files of the crate. -/
theorem program_ofSrc {tree : ModuleTree}
    (htree : (ModuleTree.ofRoot d .none ⟨"src"⟩).tree = tree) :
    ofSrc.program d [] = ⟨(Loading.sourceFiles d ⟨"src"⟩).filterMap fun f =>
      (Loading.loadFile d tree f).toOption, .none⟩ := by
  have hfiles := Loading.files_scan d .none ⟨"src"⟩
  rw [sourceRoot_src, htree] at hfiles
  rw [← hfiles]
  exact congrArg (Program.mk · _) (List.flatMap_singleton _ _)

/-- The head of a public module, with the file that an attribute gives it. -/
def publicModule (i : Ident) (file? : Option String) : ModuleHead :=
  ⟨file?.toList.map fun f =>
    ⟨false, .value (.ofIdent (.plain "path")) ⟨[.literal (Text.quoted f)], []⟩⟩,
    .everyone, false, i⟩

/-- The enum `#[a::b] pub enum D { E }`. -/
def markedEnum : Enum :=
  ⟨[⟨false, .path ⟨false, [⟨.plain "a", none⟩, ⟨.plain "b", none⟩]⟩⟩], .everyone, .plain "D",
    .empty, .empty, [⟨[], .plain "E", .unit, none⟩], false⟩

/-- A crate with a module in a file of its own. -/
@[irreducible] def kindsDisk : Disk :=
  .ofTexts [("src/lib.rs", "pub mod kinds;"), ("src/kinds.rs", "#[a::b] pub enum D { E }")]

def kindsHead : ModuleHead := publicModule (.plain "kinds") none

theorem tree_kinds : (ModuleTree.ofRoot kindsDisk .none ⟨"src"⟩).tree =
    [⟨["src", "lib.rs"], .root, true, ⟨[], [.fileModule kindsHead]⟩⟩,
      ⟨["src", "kinds.rs"], ⟨["kinds"]⟩, true, ⟨[], [.enum markedEnum]⟩⟩] := by
  decide +kernel

theorem program_kinds : ofSrc.program kindsDisk [] =
    ⟨[⟨⟨"src/kinds.rs"⟩, some ⟨["kinds"]⟩, true, ⟨[], [.enum markedEnum]⟩⟩,
      ⟨⟨"src/lib.rs"⟩, some .root, true, ⟨[], [.fileModule kindsHead]⟩⟩], .none⟩ := by
  have hfiles : ((Loading.sourceFiles kindsDisk ⟨"src"⟩).filterMap fun f =>
      (Loading.loadFile kindsDisk [⟨["src", "lib.rs"], .root, true, ⟨[], [.fileModule kindsHead]⟩⟩,
        ⟨["src", "kinds.rs"], ⟨["kinds"]⟩, true, ⟨[], [.enum markedEnum]⟩⟩] f).toOption) =
      [⟨⟨"src/kinds.rs"⟩, some ⟨["kinds"]⟩, true, ⟨[], [.enum markedEnum]⟩⟩,
        ⟨⟨"src/lib.rs"⟩, some .root, true, ⟨[], [.fileModule kindsHead]⟩⟩] := by
    decide +kernel
  rw [program_ofSrc tree_kinds, hfiles]

/-- What the search comes to there: the root file, and the file of the module. -/
def kindsPending : List Pending :=
  [⟨⟨"src/lib.rs"⟩, .root, true, ⟨"src"⟩⟩, ⟨⟨"src/kinds.rs"⟩, ⟨["kinds"]⟩, true, ⟨"src/kinds"⟩⟩]

theorem closed_kinds : ModuleTree.Closed kindsDisk .none ⟨"src"⟩
    (ModuleTree.ofRoot kindsDisk .none ⟨"src"⟩).tree kindsPending := by
  rw [tree_kinds]
  constructor <;> decide +kernel

theorem leadsTo_kinds : ModuleTree.LeadsTo kindsDisk .none ⟨"src"⟩
    (Unshared kindsDisk .none ⟨"src"⟩ (ModuleTree.ofRoot kindsDisk .none ⟨"src"⟩).tree)
    [kindsHead] ⟨"src/kinds.rs"⟩ (.here [] []) markedEnum := by
  obtain ⟨hlib, hkinds, halone⟩ :
      kindsDisk.canonical? ⟨"src/lib.rs"⟩ = some ["src", "lib.rs"] ∧
        kindsDisk.canonical? ⟨"src/kinds.rs"⟩ = some ["src", "kinds.rs"] ∧
        ∀ q ∈ kindsPending, kindsDisk.canonical? q.file = kindsDisk.canonical? ⟨"src/kinds.rs"⟩ →
          q = ⟨⟨"src/kinds.rs"⟩, ⟨["kinds"]⟩, true, ⟨"src/kinds"⟩⟩ := by
    decide +kernel
  have reads {file dir : FsPath} {hs : List ModuleHead} {f : TreeFile}
      (hf : f ∈ [⟨["src", "lib.rs"], .root, true, ⟨[], [.fileModule kindsHead]⟩⟩,
        ⟨["src", "kinds.rs"], ⟨["kinds"]⟩, true, ⟨[], [.enum markedEnum]⟩⟩])
      (hfile : kindsDisk.canonical? file = some f.location) :
      Reads kindsDisk hs file dir f.source :=
    ModuleTree.reads_of_mem (tree_kinds ▸ hf) hfile hs dir
  have hfits : ModuleTree.Fits ⟨⟨"src/kinds.rs"⟩, ⟨["kinds"]⟩, true, ⟨"src/kinds"⟩⟩ [kindsHead] :=
    ⟨rfl, iff_of_true rfl (ModulePath.nameableAlong_singleton.mpr rfl)⟩
  have hunshared := closed_kinds.unshared hfits halone
    (reads (List.mem_cons_of_mem _ (List.mem_singleton_self _)) hkinds)
  exact ModuleTree.leadsTo_of_declared _ [] []
    ⟨reads List.mem_cons_self hlib, fun h => absurd rfl h⟩ hunshared (by decide +kernel)

theorem scans_kinds : Loading.Scans kindsDisk ⟨"src"⟩ ⟨"src/kinds.rs"⟩ := by
  obtain ⟨hbase, hl, hends⟩ : kindsDisk.canonical? ⟨"src"⟩ = some ["src"] ∧
      kindsDisk.canonical? ⟨"src/kinds.rs"⟩ = some ["src", "kinds.rs"] ∧
      (⟨"kinds.rs"⟩ : FsPath).extension? = some "rs" := by
    decide +kernel
  refine ⟨_, _, hbase, hl, [], "kinds.rs", .text "#[a::b] pub enum D { E }", rfl, ?_, hends, ?_⟩
  · unfold kindsDisk
    rfl
  · decide

/-- A crate in which two modules have one file, and the file of a third one does not end as sources
do. -/
@[irreducible] def sharedDisk : Disk :=
  .ofTexts [("src/lib.rs",
      "#[path=\"m.rs\"]pub mod x;#[path=\"m.rs\"]pub mod y;#[path=\"t\"]pub mod z;"),
    ("src/m.rs", "#[a::b] pub enum D { E }"), ("src/t", "#[a::b] pub enum D { E }")]

def xHead : ModuleHead := publicModule (.plain "x") (some "m.rs")

def yHead : ModuleHead := publicModule (.plain "y") (some "m.rs")

def zHead : ModuleHead := publicModule (.plain "z") (some "t")

/-- The files of the crate, the root file first and then those declared last. -/
def sharedTree : ModuleTree :=
  [⟨["src", "lib.rs"], .root, true,
      ⟨[], [.fileModule xHead, .fileModule yHead, .fileModule zHead]⟩⟩,
    ⟨["src", "t"], ⟨["z"]⟩, true, ⟨[], [.enum markedEnum]⟩⟩,
    ⟨["src", "m.rs"], ⟨["y"]⟩, true, ⟨[], [.enum markedEnum]⟩⟩]

theorem tree_shared : (ModuleTree.ofRoot sharedDisk .none ⟨"src"⟩).tree = sharedTree := by
  decide +kernel

theorem program_shared : ofSrc.program sharedDisk [] =
    ⟨[⟨⟨"src/lib.rs"⟩, some .root, true,
        ⟨[], [.fileModule xHead, .fileModule yHead, .fileModule zHead]⟩⟩,
      ⟨⟨"src/m.rs"⟩, some ⟨["y"]⟩, true, ⟨[], [.enum markedEnum]⟩⟩], .none⟩ := by
  have hfiles : ((Loading.sourceFiles sharedDisk ⟨"src"⟩).filterMap fun f =>
      (Loading.loadFile sharedDisk sharedTree f).toOption) =
      [⟨⟨"src/lib.rs"⟩, some .root, true,
          ⟨[], [.fileModule xHead, .fileModule yHead, .fileModule zHead]⟩⟩,
        ⟨⟨"src/m.rs"⟩, some ⟨["y"]⟩, true, ⟨[], [.enum markedEnum]⟩⟩] := by
    decide +kernel
  rw [program_ofSrc tree_shared, hfiles]

end Generator

end EnumCatalog
