import EnumCatalog.Proofs.OutsideFiles
import EnumCatalog.Proofs.Relocation
import EnumCatalog.Proofs.RunFrame
import EnumCatalog.Proofs.Subdirectory

/-!
# Scan paths that overlap

The files below a directory are loaded again if a directory below it is scanned as well. Each of them
comes as the module that it was before, by another name perhaps, and behind the files of the first
directory (`Disk.Overlap.exists_loaded`). Such a file makes no difference: its scopes are not found,
because the first scope of each module is, and its candidates repeat others that come first, or are
in no module and cannot be named (`Program.descriptors_extract_append_again`).
-/

set_option autoImplicit false

namespace EnumCatalog

/-! ## 1. Files that are loaded again -/

theorem exists_mem_of_forall₂ {α β : Type} {R : α → β → Prop} {as : List α} {bs : List β} {b : β}
    (h : List.Forall₂ R as bs) (hb : b ∈ bs) : ∃ a ∈ as, R a b := by
  induction h with
  | nil => cases hb
  | @cons a b' as bs hab _ ih =>
    rcases List.mem_cons.mp hb with rfl | hb
    · exact ⟨a, List.mem_cons_self, hab⟩
    · obtain ⟨a', ha', hR⟩ := ih hb
      exact ⟨a', List.mem_cons_of_mem a ha', hR⟩

/-- The file as if it were called by another name. -/
def SourceUnit.moveTo (path : FsPath) (u : SourceUnit) : SourceUnit := { u with path := path }

namespace Declarations

variable {o : Cfg.Options} {us : List SourceUnit} {u : SourceUnit}

/-- Among the declarations of files are those of each file. -/
theorem exists_subset_ofUnits (o : Cfg.Options) (hu : u ∈ us) : ∃ n,
    (ofUnit o n u).scopes ⊆ (ofUnits o 0 us).scopes ∧
      (ofUnit o n u).candidates ⊆ (ofUnits o 0 us).candidates := by
  obtain ⟨as, bs, rfl⟩ := List.append_of_mem hu
  rw [ofUnits_append, ofUnits_cons]
  refine ⟨0 + scopeCountOf as, ?_, ?_⟩
  · exact List.subset_append_of_subset_right _ (List.subset_append_left _ _)
  · exact List.subset_append_of_subset_right _ (List.subset_append_left _ _)

/-- By another name and with other numbers, a file that is there already adds nothing: it declares
the same scopes, and twins of the candidates. -/
theorem covers_again (hu : u ∈ us) (n : ScopeId) (path : FsPath) :
    (ofUnits o 0 us).Covers (ofUnit o n (u.moveTo path)) := by
  obtain ⟨n₀, hscopes, hcandidates⟩ := exists_subset_ofUnits o hu
  obtain ⟨hsame, htwins⟩ := ofBlock_relocate o (.ofUnit u) path n₀ n u.source.items
  refine ⟨fun s hs module hmodule => ⟨s, hscopes (hsame ▸ hs), hmodule⟩, fun c hc heligible => ?_⟩
  obtain ⟨a, ha, htwin⟩ := exists_mem_of_forall₂ htwins hc
  have hin : a.inTree = c.inTree := congrArg Option.isSome htwin.module?
  have hsameEligible : a.isEligible = c.isEligible := by
    rw [Candidate.isEligible, Candidate.isEligible, hin, htwin.enabled]
  rw [← hsameEligible] at heligible
  exact ⟨a, hcandidates ha, heligible, htwin.key_eq (Bool.and_eq_true_iff.mp heligible).1⟩

end Declarations

namespace Program

variable {o : Cfg.Options} {us vs : List SourceUnit} {m : Marker} {crateName : String}

theorem mentions_append_again {u : SourceUnit} (hu : u ∈ us) (path : FsPath) (name : String) :
    (Program.mk (us ++ u.moveTo path :: vs) o).mentions name =
      (Program.mk (us ++ vs) o).mentions name := by
  unfold mentions
  rw [List.any_append, List.any_append, List.any_cons, ← Bool.or_assoc]
  congr 1
  rw [Bool.eq_iff_iff, Bool.or_eq_true, or_iff_left_iff_imp]
  intro hname
  exact List.any_eq_true.mpr ⟨u, hu, hname⟩

/-- Files that are there already make no difference at the end, whatever they are called there. -/
theorem descriptors_extract_append_again (h : ∀ v ∈ vs, ∃ u ∈ us, v = u.moveTo v.path)
    (stop : Cancellation) :
    ((Program.mk (us ++ vs) o).extract m crateName stop).descriptors =
      ((Program.mk us o).extract m crateName stop).descriptors := by
  induction vs with
  | nil => rw [List.append_nil]
  | cons v vs ih =>
    obtain ⟨hv, hvs⟩ := List.forall_mem_cons.mp h
    obtain ⟨u, hu, hagain⟩ := hv
    rw [← ih hvs, hagain, descriptors_extract_eq_ite, descriptors_extract_eq_ite,
      mentions_append_again hu,
      descriptors_extractAnyway_insert (Declarations.covers_again hu _ _)]

end Program

/-! ## 2. Loading -/

namespace Loading

/-- What is loaded from a file does not depend on its name. -/
theorem loadFile_of_canonical? {d : Disk} (tree : ModuleTree) {f f' : FsPath}
    (h : d.canonical? f' = d.canonical? f) :
    (loadFile d tree f').toOption = (loadFile d tree f).toOption.map (·.moveTo f') := by
  have hread : d.readText? f' = d.readText? f := by
    rw [Disk.readText?_eq, Disk.readText?_eq, h]
  unfold loadFile
  rw [h, hread]
  cases (d.canonical? f).bind tree.at? with
  | some file => rfl
  | none =>
    cases d.readText? f with
    | none => rfl
    | some text =>
      simp only
      cases Syntax.SourceFile.parse? text <;> rfl

/-- Sources of a directory are sources of the one around it, unless the way there is left out. -/
theorem HoldsSource.of_below {d : Disk} {root l : Location} {names : List String}
    (h : HoldsSource d (root ++ names) l) (hgenerated : "generated" ∉ names)
    (htarget : "target" ∉ names) : HoldsSource d root l := by
  obtain ⟨above, name, c, hl, hnode, hends, hout, hout'⟩ := h
  refine ⟨names ++ above, name, c, ?_, hnode, hends, ?_, ?_⟩
  · rw [hl, List.append_assoc, List.append_assoc]
  · rw [List.append_assoc, List.mem_append, not_or]
    exact ⟨hgenerated, hout⟩
  · rw [List.append_assoc, List.mem_append, not_or]
    exact ⟨htarget, hout'⟩

end Loading

namespace Disk.Overlap

variable {d : Disk} {dir inner : FsPath} (w : d.Overlap dir inner)
include w

/-- What is loaded from the inner directory is loaded from the outer one as well. -/
theorem exists_loaded (hp : d.IsPlain) (o : Cfg.Options) {u : SourceUnit}
    (hu : u ∈ (Loading.scan d o inner).files) :
    ∃ v ∈ (Loading.scan d o dir).files, u = v.moveTo u.path := by
  obtain ⟨l, names, hdir, hinner, havoids⟩ := w.exists_between hp
  rw [Loading.files_scan,
    ← ModuleTree.ofRoot_eq_of_sameDirectory hp (w.sameDirectory_sourceRoot hp)] at hu
  obtain ⟨f, hf, hload⟩ := List.mem_filterMap.mp hu
  obtain ⟨k, hk⟩ := Loading.exists_canonical?_of_mem_sourceFiles hp hf
  have hsource := (Loading.exists_mem_sourceFiles_iff hp hinner w.isDirectory_inner).mp ⟨f, hf, hk⟩
  obtain ⟨f', hf', hk'⟩ := (Loading.exists_mem_sourceFiles_iff hp hdir w.isDirectory).mpr
    (hsource.of_below (fun h => havoids _ h (by simp)) fun h => havoids _ h (by simp))
  have hcopy := Loading.loadFile_of_canonical? (ModuleTree.ofRoot d o (Loading.sourceRoot dir)).tree
    (hk.trans hk'.symm)
  rw [hload, eq_comm, Option.map_eq_some_iff] at hcopy
  obtain ⟨v, hv, rfl⟩ := hcopy
  refine ⟨v, ?_, rfl⟩
  rw [Loading.files_scan]
  exact List.mem_filterMap.mpr ⟨f', hf', hv⟩

end Disk.Overlap

/-! ## 3. Generation -/

namespace Generator

variable {d : Disk} {dir inner : FsPath}

/-- The generator for two directories. -/
def scanningBoth (g : Generator) (dir inner : FsPath) : Generator :=
  { g with scanPaths := [dir, inner] }

theorem program_scanningBoth (g : Generator) (dir inner : FsPath) (d : Disk) (env : Environment) :
    (g.scanningBoth dir inner).program d env =
      ⟨(Loading.scan d (g.effectiveOptions env) dir).files ++
        (Loading.scan d (g.effectiveOptions env) inner).files, g.effectiveOptions env⟩ := by
  refine congrArg (Program.mk · _) ?_
  show List.flatMap _ [dir, inner] = _
  rw [List.flatMap_cons, List.flatMap_singleton]
  rfl

/-- Without a cancellation, the descriptors of a program decide which ones a generation has. -/
theorem result_generateFrom_congr {g g' : Generator} {m : Marker} {runtime : Syntax.Path}
    {p p' : Program} (hnever : g.cancellation = .never) (hnever' : g'.cancellation = .never)
    (h : (p.extract m g.crateName .never).descriptors =
      (p'.extract m g'.crateName .never).descriptors) :
    (g.generateFrom m runtime p).result.map (·.descriptors) =
      (g'.generateFrom m runtime p').result.map (·.descriptors) := by
  rw [result_generateFrom, result_generateFrom, hnever, hnever', Program.aborted_extract_never,
    Program.aborted_extract_never, if_neg Bool.false_ne_true, if_neg Bool.false_ne_true, ← h]
  cases Artifact.ofDescriptors runtime (p.extract m g.crateName .never).descriptors <;>
    simp only [Except.map]

/-- Generators with one marker and one runtime crate, whose directories are all there, come to the
same descriptors if the programs that they load do. -/
theorem result_generate_congr {g g' : Generator} {env : Environment}
    (hmarker : g.marker = g'.marker) (hruntime : g.runtimeCrate = g'.runtimeCrate)
    (hdirs : ∀ s ∈ g.effectiveScanPaths, d.isDirectory s = true)
    (hdirs' : ∀ s ∈ g'.effectiveScanPaths, d.isDirectory s = true)
    (h : ∀ m runtime, (g.generateFrom m runtime (g.program d env)).result.map (·.descriptors) =
      (g'.generateFrom m runtime (g'.program d env)).result.map (·.descriptors)) :
    (g.generate d env).result.map (·.descriptors) =
      (g'.generate d env).result.map (·.descriptors) := by
  have hfind : g.effectiveScanPaths.find? (!d.isDirectory ·) = none :=
    List.find?_eq_none.mpr fun s hs => by simp [hdirs s hs]
  have hfind' : g'.effectiveScanPaths.find? (!d.isDirectory ·) = none :=
    List.find?_eq_none.mpr fun s hs => by simp [hdirs' s hs]
  cases hm : Marker.parse g.marker with
  | error e => simp only [generate, ← hmarker, hm]
  | ok m =>
  cases hr : Syntax.Path.parse? g.runtimeCrate with
  | none => simp only [generate, ← hmarker, ← hruntime, hm, hr]
  | some runtime =>
    rw [result_generate hm hr, result_generate (hmarker ▸ hm) (hruntime ▸ hr), hfind, hfind']
    exact h m runtime

/-- **Overlapping scan paths.** If a directory is scanned after one that it is below, nothing else is
found than from the one around it: for every marker and crate name, and whenever the pass is
cancelled. So a generation that is not cancelled has the same descriptors, or fails alike. -/
theorem generate_overlap (g : Generator) (env : Environment) (hp : d.IsPlain)
    (w : d.Overlap dir inner) :
    let both := g.scanningBoth dir inner
    let one := g.scanning dir
    (∀ m crateName stop, ((both.program d env).extract m crateName stop).descriptors =
      ((one.program d env).extract m crateName stop).descriptors) ∧
    (g.cancellation = .never → (both.generate d env).result.map (·.descriptors) =
      (one.generate d env).result.map (·.descriptors)) := by
  intro both one
  have hextract (m : Marker) (crateName : String) (stop : Cancellation) :
      ((both.program d env).extract m crateName stop).descriptors =
        ((one.program d env).extract m crateName stop).descriptors := by
    rw [program_scanningBoth, program_scanning]
    exact Program.descriptors_extract_append_again
      (fun u hu => w.exists_loaded hp (g.effectiveOptions env) hu) stop
  refine ⟨hextract, fun hnever => result_generate_congr rfl rfl ?_ ?_ fun m runtime => ?_⟩
  · exact List.forall_mem_cons.mpr
      ⟨w.isDirectory, List.forall_mem_singleton.mpr w.isDirectory_inner⟩
  · exact List.forall_mem_singleton.mpr w.isDirectory
  · exact result_generateFrom_congr hnever hnever (hextract m g.crateName .never)

theorem overlap_ownName : ownNameDisk.Overlap ⟨"src"⟩ ⟨"./src/m/"⟩ where
  isDirectory := by decide +kernel
  isDirectory_inner := by decide +kernel
  src_mem := by decide +kernel
  goesOn := ⟨["m"], by decide +kernel, by decide⟩
  below := ⟨["src"], ["m"], by decide +kernel, by decide +kernel⟩

/-- The inner directory is called by another name, and two of the three files are in it. -/
theorem generate_overlap_ownName :
    let both := ofSrc.scanningBoth ⟨"src"⟩ ⟨"./src/m/"⟩
    (ownNameDisk.IsPlain ∧ ownNameDisk.Overlap ⟨"src"⟩ ⟨"./src/m/"⟩ ∧
      both.cancellation = .never) ∧
    (both.program ownNameDisk []).files.map (·.path.text) =
      ["src/lib.rs", "src/m/k.rs", "src/m/mod.rs", "./src/m/k.rs", "./src/m/mod.rs"] ∧
    (both.generate ownNameDisk []).result.map (·.descriptors) =
      .ok [⟨"crate::D", none⟩, ⟨"crate::m::k::D", none⟩] := by
  intro both
  have hplain : ownNameDisk.IsPlain := by
    unfold ownNameDisk
    with_reducible exact Disk.isPlain_ofTexts _
  have hfound : (((ofSrc.scanning ⟨"src"⟩).program ownNameDisk []).found ⟨["a", "b"]⟩
      (ofSrc.scanning ⟨"src"⟩).crateName).map (·.2) =
        [⟨"crate::D", none⟩, ⟨"crate::m::k::D", none⟩] := by
    rw [← isOf_ownNameExcerpt.whole]
    decide +kernel
  obtain ⟨code, hone⟩ := (ready_scanning_src overlap_ownName.isDirectory).exists_code_found []
  rw [hfound] at hone
  have hboth := (generate_overlap ofSrc [] hplain overlap_ownName).2 rfl
  refine ⟨⟨hplain, overlap_ownName, rfl⟩, by decide +kernel, hboth.trans (congrArg _ hone)⟩

end Generator

end EnumCatalog
