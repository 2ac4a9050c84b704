import EnumCatalog.Proofs.DiskWriting
import EnumCatalog.Proofs.GrownProgram
import EnumCatalog.Proofs.LogLine
import EnumCatalog.Proofs.Registering

/-!
# Runs after a run

A run brings an artifact to disk, and on the disk after it everything is in place for that artifact:
a run that comes to the same code succeeds, writes nothing, and leaves the disk as it is
(`Generator.run_again`). So all depends on whether the next generation comes to the same code,
although the artifact may now be among the files that it scans.

On a plain disk it does if the artifact is no source and no declaration of a module is concerned.
Where the artifact is a source, the next generation loads one file more. This file has no module and
declares no enum, but it counts: the log has the number of files in its first line, and the search
for the name of the marker's crate looks into the artifact too. Without the log in the artifact, and
if the search comes to the same answer, the code is the same. With the log, it is not
(`Generator.not_settles_besideSources`).
-/

set_option autoImplicit false

namespace EnumCatalog

open ModuleTree (Searches)

namespace Generator

/-! ## 1. Bringing an artifact to disk -/

section

variable {d d' : Disk} {output : FsPath} {code : String} {written : Bool} {r : Except Error Bool}

/-- How bringing an artifact to disk can go: the directories for it are made or not, and then it is
found there, or it is written or not. -/
inductive Installs (d : Disk) (output : FsPath) (code : String) : Disk → Except Error Bool → Prop where
  | noDirectory (hd : output.parent?.elim (some d) d.makeDirectories = none) :
      Installs d output code (d.makeEach (Disk.directoriesTo output.directory))
        (.error (.makeDirectory output.directory))
  | found {d₁ : Disk} (hd : output.parent?.elim (some d) d.makeDirectories = some d₁)
      (hread : d₁.readText? output = some code) : Installs d output code d₁ (.ok false)
  | notWritten {d₁ : Disk} (hd : output.parent?.elim (some d) d.makeDirectories = some d₁)
      (hread : d₁.readText? output ≠ some code) (hwrite : d₁.write output (.text code) = none) :
      Installs d output code d₁ (.error (.write output))
  | written {d₁ d₂ : Disk} (hd : output.parent?.elim (some d) d.makeDirectories = some d₁)
      (hread : d₁.readText? output ≠ some code) (hwrite : d₁.write output (.text code) = some d₂) :
      Installs d output code d₂ (.ok true)

theorem installs_of_install (h : install d output code = (d', r)) :
    Installs d output code d' r := by
  unfold install at h
  split at h
  case h_1 hd =>
    obtain ⟨rfl, rfl⟩ := Prod.mk.inj h
    exact .noDirectory hd
  case h_2 d₁ hd =>
    split at h
    case isTrue hread =>
      obtain ⟨rfl, rfl⟩ := Prod.mk.inj h
      exact .found hd (beq_iff_eq.mp hread)
    case isFalse hread =>
      split at h
      case h_1 hwrite =>
        obtain ⟨rfl, rfl⟩ := Prod.mk.inj h
        exact .notWritten hd (mt beq_iff_eq.mpr hread) hwrite
      case h_2 d₂ hwrite =>
        obtain ⟨rfl, rfl⟩ := Prod.mk.inj h
        exact .written hd (mt beq_iff_eq.mpr hread) hwrite

/-- An artifact that has been brought to disk is there: bringing it there again changes nothing. -/
theorem install_spec (h : install d output code = (d', .ok written)) :
    ∃ a, d.Adds a d' ∧ d'.canonical? output = some a ∧
      d'.sight? a = some (.file (.text code)) ∧ install d' output code = (d', .ok false) := by
  -- What is written on top of the directories leaves these as they are.
  have again {d₁ : Disk} {a : Location} (hadds : d₁.Adds a d')
      (hd : output.parent?.elim (some d) d.makeDirectories = some d₁)
      (ha : d'.canonical? output = some a) (hfile : d'.sight? a = some (.file (.text code))) :
      d.Adds a d' ∧ install d' output code = (d', .ok false) := by
    have hread : d'.readText? output = some code :=
      Disk.readText?_eq_some_iff.mpr ⟨a, ha, hfile⟩
    unfold install
    cases hparent : output.parent? with
    | none =>
      rw [hparent] at hd
      obtain rfl := Option.some.inj hd
      exact ⟨hadds, by simp [hread]⟩
    | some dir =>
      rw [hparent] at hd
      refine ⟨(Disk.makeDirectories_spec hd a).1.trans hadds, ?_⟩
      simp [Disk.makeDirectories_again hd hadds.grows, hread]
  cases installs_of_install h with
  | found hd hread =>
    obtain ⟨a, ha, hfile⟩ := Disk.readText?_eq_some_iff.mp hread
    obtain ⟨hadds, hinstall⟩ := again (.refl a d') hd ha hfile
    exact ⟨a, hadds, ha, hfile, hinstall⟩
  | written hd _ hwrite =>
    obtain ⟨a, hadds, ha, hfile⟩ := Disk.write_spec hwrite
    obtain ⟨hadds', hinstall⟩ := again hadds hd ha hfile
    exact ⟨a, hadds', ha, hfile, hinstall⟩

theorem readText?_of_install (h : install d output code = (d', .ok written)) :
    d'.readText? output = some code := by
  obtain ⟨a, -, ha, hfile, -⟩ := install_spec h
  exact Disk.readText?_eq_some_iff.mpr ⟨a, ha, hfile⟩

end

/-! ## 2. Runs that are not cancelled -/

variable {g : Generator} {d d' : Disk} {env : Environment}

/-- The code that a generation comes to, if it comes to any. -/
def code? (g : Generator) (d : Disk) (env : Environment) : Option String :=
  match (g.generate d env).result with
  | .ok x => x.code
  | .error _ => none

/-- Everything is in place for a run: it succeeds, writes nothing and leaves the disk as it is. -/
def Settles (g : Generator) (d : Disk) (env : Environment) : Prop :=
  (g.run d env).disk = d ∧
    ∃ n, (g.run d env).reported.result = .ok ⟨g.effectiveOutputFile env, n, false, false⟩

/-- A run brings to disk what was generated. -/
theorem run_of_generate {x : Generated} {code : String}
    (hgen : (g.generate d env).result = .ok x) (hcode : x.code = some code) :
    (g.run d env).disk = (install d (g.effectiveOutputFile env) code).1 ∧
      (g.run d env).reported.result = (install d (g.effectiveOutputFile env) code).2.map
        fun written => ⟨g.effectiveOutputFile env, x.descriptors.length, written, false⟩ := by
  simp only [run, hgen, hcode]
  rcases install d (g.effectiveOutputFile env) code with ⟨d', e | _ | _⟩ <;> exact ⟨rfl, rfl⟩

theorem exists_of_run (hnever : g.cancellation = .never) {r : Report}
    (h : (g.run d env).reported.result = .ok r) : ∃ code, g.code? d env = some code ∧
      install d (g.effectiveOutputFile env) code = ((g.run d env).disk, .ok r.written) := by
  cases hgen : (g.generate d env).result with
  | error e =>
    simp only [run, hgen] at h
    cases h
  | ok x =>
    obtain ⟨m, runtime, code, -, -, -, -, rfl⟩ := (generate_eq_ok_iff hnever).mp hgen
    obtain ⟨hdisk, hresult⟩ := run_of_generate hgen rfl
    refine ⟨code, by rw [code?, hgen], ?_⟩
    rw [h] at hresult
    rw [hdisk]
    generalize install d (g.effectiveOutputFile env) code = i at hresult
    obtain ⟨d', e | written⟩ := i
    · cases hresult
    · rw [Except.ok.inj hresult]

theorem run_of_install {code : String} (hcode : g.code? d env = some code) {written : Bool}
    (h : install d (g.effectiveOutputFile env) code = (d', .ok written)) :
    (g.run d env).disk = d' ∧ ∃ n,
      (g.run d env).reported.result = .ok ⟨g.effectiveOutputFile env, n, written, false⟩ := by
  unfold code? at hcode
  split at hcode
  case h_1 x hgen =>
    obtain ⟨hdisk, hresult⟩ := run_of_generate hgen hcode
    rw [h] at hdisk hresult
    exact ⟨hdisk, _, hresult⟩
  case h_2 => cases hcode

theorem settles_iff (hnever : g.cancellation = .never) : g.Settles d env ↔
    ∃ code, g.code? d env = some code ∧
      install d (g.effectiveOutputFile env) code = (d, .ok false) := by
  constructor
  · rintro ⟨hdisk, n, hrun⟩
    obtain ⟨code, hcode, hinstall⟩ := exists_of_run hnever hrun
    rw [hdisk] at hinstall
    exact ⟨code, hcode, hinstall⟩
  · rintro ⟨code, hcode, hinstall⟩
    exact run_of_install hcode hinstall

/-- After a run, everything is in place for a run that comes to the same code, and for no other. -/
theorem settles_run_iff (hnever : g.cancellation = .never) {r : Report}
    (h : (g.run d env).reported.result = .ok r) :
    g.Settles (g.run d env).disk env ↔ g.code? (g.run d env).disk env = g.code? d env := by
  obtain ⟨code, hcode, hinstall⟩ := exists_of_run hnever h
  obtain ⟨-, -, -, -, hagain⟩ := install_spec hinstall
  rw [settles_iff hnever, hcode]
  constructor
  · rintro ⟨code', hcode', hinstall'⟩
    have hread := (readText?_of_install hinstall').symm.trans (readText?_of_install hinstall)
    rw [hcode', Option.some.inj hread]
  · intro hcode'
    exact ⟨code, hcode', hagain⟩

/-! ## 3. The code of a generation -/

theorem code?_eq_some_iff (hnever : g.cancellation = .never) {code : String} :
    g.code? d env = some code ↔ ∃ m runtime, Marker.parse g.marker = .ok m ∧
      Syntax.Path.parse? g.runtimeCrate = some runtime ∧
      (∀ s ∈ g.effectiveScanPaths, d.isDirectory s = true) ∧
      Artifact.render ((g.program d env).extract m g.crateName .never).descriptors runtime
        (g.shownLog ((g.program d env).extract m g.crateName .never)) = .ok code := by
  have hcode : g.code? d env = some code ↔
      ∃ x, (g.generate d env).result = .ok x ∧ x.code = some code := by
    unfold code?
    cases (g.generate d env).result with
    | error e => simp
    | ok x => simp
  rw [hcode]
  constructor
  · rintro ⟨x, hx, hxcode⟩
    obtain ⟨m, runtime, code', hm, hr, hdirs, hrender, rfl⟩ := (generate_eq_ok_iff hnever).mp hx
    obtain rfl : code' = code := Option.some.inj hxcode
    exact ⟨m, runtime, hm, hr, hdirs, hrender⟩
  · rintro ⟨m, runtime, hm, hr, hdirs, hrender⟩
    exact ⟨_, (generate_eq_ok_iff hnever).mpr ⟨m, runtime, code, hm, hr, hdirs, hrender, rfl⟩, rfl⟩

/-- The code depends on nothing but the descriptors and what is shown of the log. -/
theorem code?_eq_of_extract (hnever : g.cancellation = .never) {code : String}
    (hcode : g.code? d env = some code)
    (hdirs : ∀ s ∈ g.effectiveScanPaths, d'.isDirectory s = true) {m : Marker}
    (hm : Marker.parse g.marker = .ok m)
    (hsame : ((g.program d' env).extract m g.crateName .never).descriptors =
      ((g.program d env).extract m g.crateName .never).descriptors)
    (hlog : g.shownLog ((g.program d' env).extract m g.crateName .never) =
      g.shownLog ((g.program d env).extract m g.crateName .never)) :
    g.code? d' env = some code := by
  obtain ⟨m', runtime, hm', hr, -, hrender⟩ := (code?_eq_some_iff hnever).mp hcode
  obtain rfl : m = m' := Except.ok.inj (hm.symm.trans hm')
  refine (code?_eq_some_iff hnever).mpr ⟨m, runtime, hm, hr, hdirs, ?_⟩
  rw [hsame, hlog]
  exact hrender

/-- A log starts with the numbers of candidates and files. -/
theorem exists_log_extract (p : Program) (m : Marker) (crateName : String) : ∃ notes,
    (p.extract m crateName .never).log = .found p.liveCandidates.length p.files.length :: notes := by
  unfold Program.extract
  split <;> exact ⟨_, rfl⟩

/-- Code that shows the log is the same only if as many files were loaded. -/
theorem length_files_eq_of_code? (hnever : g.cancellation = .never) (hdiag : g.diagnostics = true)
    {code : String} (hcode : g.code? d env = some code) (hcode' : g.code? d' env = some code)
    {m : Marker} (hm : Marker.parse g.marker = .ok m)
    (hsame : ((g.program d' env).extract m g.crateName .never).descriptors =
      ((g.program d env).extract m g.crateName .never).descriptors) :
    (g.program d' env).files.length = (g.program d env).files.length := by
  obtain ⟨m₁, runtime, hm₁, hr, -, hrender⟩ := (code?_eq_some_iff hnever).mp hcode
  obtain ⟨m₂, runtime', hm₂, hr', -, hrender'⟩ := (code?_eq_some_iff hnever).mp hcode'
  obtain rfl : m = m₁ := Except.ok.inj (hm.symm.trans hm₁)
  obtain rfl : m = m₂ := Except.ok.inj (hm.symm.trans hm₂)
  obtain rfl : runtime = runtime' := Option.some.inj (hr.symm.trans hr')
  obtain ⟨notes, hnotes⟩ := exists_log_extract (g.program d env) m g.crateName
  obtain ⟨notes', hnotes'⟩ := exists_log_extract (g.program d' env) m g.crateName
  rw [hsame, shownLog, if_pos hdiag, hnotes'] at hrender'
  rw [shownLog, if_pos hdiag, hnotes] at hrender
  -- The artifact is the same up to the log, so the log is shown alike.
  unfold Artifact.render at hrender hrender'
  cases ha : Artifact.ofDescriptors runtime
      ((g.program d env).extract m g.crateName .never).descriptors with
  | error e =>
    rw [ha] at hrender
    cases hrender
  | ok a =>
    rw [ha] at hrender hrender'
    have htext := (Except.ok.inj hrender').trans (Except.ok.inj hrender).symm
    exact Artifact.files_eq_of_diagnosticsText (String.append_right_inj _ |>.mp htext)

/-! ## 4. The program after a run -/

/-- The search for modules does not notice the artifact: each name that it looks at leads where it
led before the run, and none to the artifact. -/
def Unnoticed (g : Generator) (d d' : Disk) (env : Environment) : Prop :=
  ∀ s ∈ g.effectiveScanPaths, ∀ f,
    ModuleTree.LooksAt d' (g.effectiveOptions env) (Loading.sourceRoot s) f →
      d'.canonical? f = d.canonical? f ∧
        d'.canonical? f ≠ d'.canonical? (g.effectiveOutputFile env)

/-- The artifact stands where no source file of the directories that are scanned would stand. -/
def IsNoSource (g : Generator) (d' : Disk) (env : Environment) : Prop :=
  ∀ s ∈ g.effectiveScanPaths, ∀ root a, d'.canonical? s = some root →
    d'.canonical? (g.effectiveOutputFile env) = some a → ¬ Loading.HoldsSource d' root a

section

variable {r : Report} (hnever : g.cancellation = .never)
  (h : (g.run d env).reported.result = .ok r)
include hnever h

theorem exists_adds_of_run : ∃ a, d.Adds a (g.run d env).disk ∧
    (g.run d env).disk.canonical? (g.effectiveOutputFile env) = some a ∧
    ∀ s ∈ g.effectiveScanPaths, d.isDirectory s = true := by
  obtain ⟨code, hcode, hinstall⟩ := exists_of_run hnever h
  obtain ⟨a, hadds, ha, -, -⟩ := install_spec hinstall
  obtain ⟨-, -, -, -, hdirs, -⟩ := (code?_eq_some_iff hnever).mp hcode
  exact ⟨a, hadds, ha, hdirs⟩

variable (hp : d.IsPlain) (hunnoticed : g.Unnoticed d (g.run d env).disk env)
include hp hunnoticed

theorem program_run_of_isNoSource (hsource : g.IsNoSource (g.run d env).disk env) :
    g.program (g.run d env).disk env = g.program d env := by
  obtain ⟨a, hadds, ha, hdirs⟩ := exists_adds_of_run hnever h
  refine Loading.programOf_of_adds hadds hp hdirs (fun s hs f hf => ?_) fun s hs f hf => ?_
  · obtain ⟨heq, hne⟩ := hunnoticed s hs f hf
    exact ⟨heq, ha ▸ hne⟩
  · have hdir := hadds.grows.isDirectory (hdirs s hs)
    obtain ⟨root, hroot, -⟩ := Disk.isDirectory_iff.mp hdir
    intro hfa
    exact hsource s hs root a hroot ha
      ((Loading.exists_mem_sourceFiles_iff (hadds.isPlain hp) hroot hdir).mp ⟨f, hf, hfa⟩)

/-- Apart from the search for the name of the marker's crate, the same is found after the run. -/
theorem extractAnyway_run (m : Marker) :
    ((g.program (g.run d env).disk env).extractAnyway m g.crateName .never).descriptors =
      ((g.program d env).extractAnyway m g.crateName .never).descriptors := by
  obtain ⟨a, hadds, ha, hdirs⟩ := exists_adds_of_run hnever h
  have hinTree : (g.program (g.run d env).disk env).inTree = (g.program d env).inTree := by
    refine Loading.inTree_programOf_of_adds hadds hp hdirs fun s hs f hf => ?_
    obtain ⟨heq, hne⟩ := hunnoticed s hs f hf
    exact ⟨heq, ha ▸ hne⟩
  rw [← Program.descriptors_extractAnyway_inTree, hinTree, Program.descriptors_extractAnyway_inTree]

end

/-- **Runs after a run.** Everything is in place for another run if and only if that comes to the
same code. On a plain disk, where the search for modules does not notice the artifact, everything is
in place if the artifact is no source file. It is, too, if no log is shown and the search for the
name of the marker's crate comes to the same as before or has nothing to hide; but if the log is
shown, only if as many files are loaded as before. -/
theorem run_again (g : Generator) (d : Disk) (env : Environment) (r : Report)
    (hnever : g.cancellation = .never) (h : (g.run d env).reported.result = .ok r) :
    let d' := (g.run d env).disk
    let p := g.program d env
    let p' := g.program d' env
    (g.Settles d' env ↔ g.code? d' env = g.code? d env) ∧
      (d.IsPlain → g.Unnoticed d d' env →
        (g.IsNoSource d' env → g.Settles d' env) ∧
        ∀ m, Marker.parse g.marker = .ok m →
          (p'.mentions m.crateName = p.mentions m.crateName ∨
            (p.extractAnyway m g.crateName .never).descriptors = []) →
          (g.diagnostics = false → g.Settles d' env) ∧
          (g.diagnostics = true → g.Settles d' env → p'.files.length = p.files.length)) := by
  intro d' p p'
  obtain ⟨code, hcode, -⟩ := exists_of_run hnever h
  obtain ⟨a, hadds, -, hdirs⟩ := exists_adds_of_run hnever h
  obtain ⟨m, -, hm, -⟩ := (code?_eq_some_iff hnever).mp hcode
  have hdirs' : ∀ s ∈ g.effectiveScanPaths, d'.isDirectory s = true :=
    fun s hs => hadds.grows.isDirectory (hdirs s hs)
  have hiff := settles_run_iff hnever h
  refine ⟨hiff, fun hp hunnoticed => ⟨fun hsource => ?_, fun m' hm' hsearch => ?_⟩⟩
  · have hprogram := program_run_of_isNoSource hnever h hp hunnoticed hsource
    rw [hiff, hcode]
    exact code?_eq_of_extract hnever hcode hdirs' hm (by rw [hprogram]) (by rw [hprogram])
  -- Regardless of the search for the name, both runs find the same enums.
  · have hanyway := extractAnyway_run hnever h hp hunnoticed m'
    have hsame : (p'.extract m' g.crateName .never).descriptors =
        (p.extract m' g.crateName .never).descriptors :=
      (Program.descriptors_extract_eq_iff hanyway).mpr (hsearch.imp_right hanyway.trans)
    refine ⟨fun hdiag => ?_, fun hdiag hsettles => ?_⟩
    · rw [hiff, hcode]
      exact code?_eq_of_extract hnever hcode hdirs' hm' hsame (by simp [shownLog, hdiag])
    · have hcode' := (hiff.mp hsettles).trans hcode
      exact length_files_eq_of_code? hnever hdiag hcode hcode' hm' hsame

/-- A crate of one file. -/
@[irreducible] def loneDisk : Disk := .ofTexts [("src/lib.rs", "#[a::b] pub enum D { E }")]

/-- The root file of the crate as a pending module, and as a file of the tree. -/
def lonePending : Pending := ⟨⟨"src/lib.rs"⟩, .root, true, ⟨"src"⟩⟩

def loneFile : TreeFile := ⟨["src", "lib.rs"], .root, true, ⟨[], [.enum markedEnum]⟩⟩

/-- The root file declares no module, so the search ends with it. -/
theorem searches_lone {d : Disk} (hload : ModuleTree.load? d lonePending = some loneFile) :
    Searches d .none [] [lonePending] [⟨lonePending, some loneFile⟩] :=
  .read hload List.not_mem_nil (.done _)

/-- A run that writes the artifact below `generated`, and then everything is in place. -/
theorem run_again_loneDisk :
    let d' := (ofSrc.run loneDisk []).disk
    ofSrc.cancellation = .never ∧
      (ofSrc.run loneDisk []).reported.result =
        .ok ⟨⟨"src/generated/pgenum_helper.rs"⟩, 1, true, false⟩ ∧
      loneDisk.IsPlain ∧ ofSrc.Unnoticed loneDisk d' [] ∧ ofSrc.IsNoSource d' [] ∧
      ofSrc.Settles d' [] := by
  intro d'
  have hrun : (ofSrc.run loneDisk []).reported.result =
      .ok ⟨⟨"src/generated/pgenum_helper.rs"⟩, 1, true, false⟩ := by
    decide +kernel
  have hplain : loneDisk.IsPlain := by
    unfold loneDisk
    exact Disk.isPlain_ofTexts _
  obtain ⟨hroot, hload, hsrc, hold, hnew, houtput⟩ :
      ModuleTree.rootIn? d' ⟨"src"⟩ = some lonePending ∧
        ModuleTree.load? d' lonePending = some loneFile ∧
        d'.canonical? ⟨"src"⟩ = some ["src"] ∧
        loneDisk.canonical? ⟨"src/lib.rs"⟩ = some ["src", "lib.rs"] ∧
        d'.canonical? ⟨"src/lib.rs"⟩ = some ["src", "lib.rs"] ∧
        d'.canonical? ⟨"src/generated/pgenum_helper.rs"⟩ =
          some ["src", "generated", "pgenum_helper.rs"] := by
    decide +kernel
  have hunnoticed : ofSrc.Unnoticed loneDisk d' [] := by
    intro s hs f hlooks
    obtain rfl : s = ⟨"src"⟩ := List.mem_singleton.mp hs
    obtain ⟨visits, hvisits, v, hv, rfl⟩ := hlooks
    rw [sourceRoot_src, hroot] at hvisits
    rw [hvisits.unique (searches_lone hload), List.mem_singleton] at hv
    subst hv
    refine ⟨hnew.trans hold.symm, fun hsame => ?_⟩
    rw [show lonePending.file = ⟨"src/lib.rs"⟩ from rfl, hnew] at hsame
    exact absurd (hsame.trans houtput) (by decide)
  -- On the way to the artifact is the directory for generated output.
  have hsource : ofSrc.IsNoSource d' [] := by
    rintro s hs root a hcanon ha ⟨above, name, c, hbelow, -, -, hgenerated, -⟩
    obtain rfl : s = ⟨"src"⟩ := List.mem_singleton.mp hs
    obtain rfl : ["src"] = root := Option.some.inj (hsrc.symm.trans hcanon)
    obtain rfl : ["src", "generated", "pgenum_helper.rs"] = a :=
      Option.some.inj (houtput.symm.trans ha)
    have hnames : ["generated", "pgenum_helper.rs"] = above ++ [name] := (List.cons.inj hbelow).2
    rw [← hnames] at hgenerated
    exact hgenerated List.mem_cons_self
  exact ⟨rfl, hrun, hplain, hunnoticed, hsource,
    ((run_again ofSrc loneDisk [] _ rfl hrun).2 hplain hunnoticed).1 hsource⟩

/-- A generator that shows the log and writes the artifact beside the sources. -/
def besideSources : Generator :=
  { ofSrc with outputFile := some ⟨"src/helper.rs"⟩, diagnostics := true }

section

variable (hroot : ModuleTree.rootIn? d ⟨"src"⟩ = some lonePending)
  (hload : ModuleTree.load? d lonePending = some loneFile)
  (hplace : d.canonical? ⟨"src/lib.rs"⟩ = some ["src", "lib.rs"])
include hroot hload

theorem tree_lone : (ModuleTree.ofRoot d .none ⟨"src"⟩).tree = [loneFile] := by
  have hsearch : Searches d .none [] (ModuleTree.rootIn? d ⟨"src"⟩).toList
      [⟨lonePending, some loneFile⟩] := by
    rw [hroot]
    exact searches_lone hload
  exact ModuleTree.tree_ofRoot hsearch

include hplace

theorem program_lone (hsources : Loading.sourceFiles d ⟨"src"⟩ = [⟨"src/lib.rs"⟩]) :
    ofSrc.program d [] = ⟨[⟨⟨"src/lib.rs"⟩, some .root, true, loneFile.source⟩], .none⟩ := by
  rw [program_ofSrc (tree_lone hroot hload), hsources, List.filterMap_cons, Loading.loadFile, hplace]
  rfl

/-- An artifact beside the sources is one of the files that are loaded. -/
theorem program_besideSources {code : String} {source : Syntax.SourceFile}
    (hsources : Loading.sourceFiles d ⟨"src"⟩ = [⟨"src/helper.rs"⟩, ⟨"src/lib.rs"⟩])
    (hhelper : d.canonical? ⟨"src/helper.rs"⟩ = some ["src", "helper.rs"])
    (hread : d.readText? ⟨"src/helper.rs"⟩ = some code)
    (hparse : Syntax.SourceFile.parse? code = some source) :
    ofSrc.program d [] = ⟨[⟨⟨"src/helper.rs"⟩, none, false, source⟩,
      ⟨⟨"src/lib.rs"⟩, some .root, true, loneFile.source⟩], .none⟩ := by
  have hfirst : Loading.loadFile d [loneFile] ⟨"src/helper.rs"⟩ =
      .ok ⟨⟨"src/helper.rs"⟩, none, false, source⟩ := by
    rw [Loading.loadFile, hhelper, hread]
    simp only [Option.bind_some, hparse]
    rfl
  rw [program_ofSrc (tree_lone hroot hload), hsources, List.filterMap_cons, hfirst,
    List.filterMap_cons, Loading.loadFile, hplace]
  rfl

end

theorem program_loneDisk : besideSources.program loneDisk [] =
    ⟨[⟨⟨"src/lib.rs"⟩, some .root, true, loneFile.source⟩], .none⟩ := by
  obtain ⟨hroot, hload, hplace, hsources⟩ :
      ModuleTree.rootIn? loneDisk ⟨"src"⟩ = some lonePending ∧
        ModuleTree.load? loneDisk lonePending = some loneFile ∧
        loneDisk.canonical? ⟨"src/lib.rs"⟩ = some ["src", "lib.rs"] ∧
        Loading.sourceFiles loneDisk ⟨"src"⟩ = [⟨"src/lib.rs"⟩] := by
    decide +kernel
  exact program_lone hroot hload hplace hsources

/-- The artifact there can be read as a source file. -/
theorem exists_parse?_besideSources {code : String}
    (hcode : besideSources.code? loneDisk [] = some code) :
    ∃ source, Syntax.SourceFile.parse? code = some source := by
  obtain ⟨m, runtime, hm, hruntime, -, hrender⟩ := (code?_eq_some_iff rfl).mp hcode
  have hready := ready_ofSrc (d := loneDisk) (by decide +kernel)
  obtain rfl : m = ⟨["a", "b"]⟩ := Except.ok.inj (hm.symm.trans hready.marker)
  obtain rfl : runtime = Artifact.pgenumPath.toPath :=
    Option.some.inj (hruntime.symm.trans hready.runtime)
  have hdescriptors : ((besideSources.program loneDisk []).extract ⟨["a", "b"]⟩
      besideSources.crateName .never).descriptors = [⟨"crate::D", none⟩] := by
    rw [program_loneDisk]
    decide +kernel
  have hpaths : List.Forall₂ (fun (d : Descriptor) (p : Syntax.NamePath) =>
      Lexer.tokens? d.qualifiedName = some p.tokens) [⟨"crate::D", none⟩]
      [⟨false, .plain "crate", [.plain "D"], by decide⟩] :=
    .cons (by decide +kernel) .nil
  rw [hdescriptors, Artifact.render_eq _ hpaths] at hrender
  obtain ⟨f, g, hparse, -, -⟩ := Artifact.parse?_text Artifact.pgenumPath
    (Artifact.rowsOf [⟨"crate::D", none⟩] [⟨false, .plain "crate", [.plain "D"], by decide⟩])
    (besideSources.shownLog ((besideSources.program loneDisk []).extract ⟨["a", "b"]⟩
      besideSources.crateName .never))
  rw [← Except.ok.inj hrender]
  exact ⟨_, hparse⟩

/-- There, the next run finds one file more, and writes the artifact again. -/
theorem not_settles_besideSources : ¬ ∀ (g : Generator) (d : Disk) (env : Environment) (r : Report),
    g.cancellation = .never → (g.run d env).reported.result = .ok r →
      g.Settles (g.run d env).disk env := by
  intro h
  have hrun : (besideSources.run loneDisk []).reported.result =
      .ok ⟨⟨"src/helper.rs"⟩, 1, true, false⟩ := by
    decide +kernel
  have hsettles := h besideSources loneDisk [] _ rfl hrun
  obtain ⟨code, hcode, hinstall⟩ := exists_of_run rfl hrun
  have hcode' := ((settles_run_iff rfl hrun).mp hsettles).trans hcode
  obtain ⟨m, -, hm, -⟩ := (code?_eq_some_iff rfl).mp hcode
  obtain ⟨source, hparse⟩ := exists_parse?_besideSources hcode
  -- After the run, the artifact is among the source files.
  obtain ⟨hroot, hload, hplace, hsources, hhelper⟩ :
      let d' := (besideSources.run loneDisk []).disk
      ModuleTree.rootIn? d' ⟨"src"⟩ = some lonePending ∧
        ModuleTree.load? d' lonePending = some loneFile ∧
        d'.canonical? ⟨"src/lib.rs"⟩ = some ["src", "lib.rs"] ∧
        Loading.sourceFiles d' ⟨"src"⟩ = [⟨"src/helper.rs"⟩, ⟨"src/lib.rs"⟩] ∧
        d'.canonical? ⟨"src/helper.rs"⟩ = some ["src", "helper.rs"] := by
    decide +kernel
  have hprogram : besideSources.program (besideSources.run loneDisk []).disk [] = _ :=
    program_besideSources hroot hload hplace hsources hhelper (readText?_of_install hinstall) hparse
  have hanyway : ((besideSources.program (besideSources.run loneDisk []).disk []).extractAnyway m
        besideSources.crateName .never).descriptors =
      ((besideSources.program loneDisk []).extractAnyway m
        besideSources.crateName .never).descriptors := by
    rw [← Program.descriptors_extractAnyway_inTree, hprogram,
      ← Program.descriptors_extractAnyway_inTree (besideSources.program loneDisk []),
      program_loneDisk]
    rfl
  obtain rfl : m = ⟨["a", "b"]⟩ :=
    Except.ok.inj (hm.symm.trans (ready_ofSrc (d := loneDisk) (by decide +kernel)).marker)
  have hmentions : loneFile.source.mentions.contains "a" = true := by decide +kernel
  have hsearch : (besideSources.program (besideSources.run loneDisk []).disk []).mentions "a" =
      (besideSources.program loneDisk []).mentions "a" := by
    rw [hprogram, program_loneDisk]
    simp only [Program.mentions, List.any_cons, hmentions, Bool.true_or, Bool.or_true]
  -- If everything were in place, both runs would have loaded as many files.
  have hlength := length_files_eq_of_code? rfl rfl hcode hcode' hm
    ((Program.descriptors_extract_eq_iff hanyway).mpr (.inl hsearch))
  rw [hprogram, program_loneDisk] at hlength
  cases hlength

end Generator

end EnumCatalog
