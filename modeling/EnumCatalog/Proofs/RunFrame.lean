import EnumCatalog.Proofs.Rerun

/-!
# What a run leaves alone

A run that fails before it has any code leaves the disk as it is, and so does one that is cancelled.
With the code in hand it makes the directories for the artifact and writes the artifact, and that is
all: each location other than the artifact's holds what it held, but for directories that were
missing on the way (`Generator.run_frame`). The report says that the artifact was written if and only
if its location held anything else than the code before.

Directories are new only where the name of one on the way leads (`Disk.KeepsOrMakes`). To say so by
locations is to say it for every name: a name such as `new/../old` leads nowhere as long as `new` is
missing, and then to what was there all along.
-/

set_option autoImplicit false

namespace EnumCatalog

/-! ## 1. Disks -/

namespace Disk

variable {d d' d₁ d₂ : Disk} {a l : Location} {p : FsPath} {ps qs : List FsPath}

/-- A location holds what it held, or it held nothing and is now a directory to which one of some
names leads. -/
def KeepsOrMakes (d : Disk) (ps : List FsPath) (d' : Disk) (l : Location) : Prop :=
  d'.sight? l = d.sight? l ∨
    (d.sight? l = none ∧ d'.sight? l = some .directory ∧ ∃ p ∈ ps, d'.canonical? p = some l)

/-- All that is new on a disk are directories to which some names lead. -/
def Makes (d : Disk) (ps : List FsPath) (d' : Disk) : Prop := ∀ l, d.KeepsOrMakes ps d' l

theorem Makes.refl (d : Disk) (ps : List FsPath) : d.Makes ps d := fun _ => Or.inl rfl

theorem Makes.grows (h : d.Makes ps d') (a : Location) : d.Grows a d' := fun l =>
  (h l).imp_right fun ⟨hnone, hdir, _⟩ => Or.inl ⟨hnone, hdir⟩

theorem Makes.trans (h : d.Makes ps d₁) (h' : d₁.Makes qs d₂) : d.Makes (ps ++ qs) d₂ := by
  intro l
  rcases h' l with heq | ⟨hnone, hdir, q, hq, hl⟩
  · rcases h l with heq' | ⟨hnone, hdir, p, hp, hl⟩
    · exact Or.inl (heq.trans heq')
    · exact Or.inr ⟨hnone, heq.trans hdir, p, List.mem_append_left qs hp,
        (h'.grows l).canonical?_eq hl⟩
  · rcases h l with heq' | ⟨-, hdir', -⟩
    · exact Or.inr ⟨heq' ▸ hnone, hdir, q, List.mem_append_right ps hq, hl⟩
    · rw [hdir'] at hnone
      cases hnone

/-- A file is where it was. -/
theorem Makes.sight?_file_iff (h : d.Makes ps d') {c : Content} :
    d'.sight? l = some (.file c) ↔ d.sight? l = some (.file c) := by
  rcases h l with heq | ⟨hnone, hdir, -⟩
  · rw [heq]
  · rw [hnone, hdir]
    simp

/-- What can be replaced afterwards could be replaced before. -/
theorem Makes.isFree (h : d.Makes ps d') (hfree : d'.IsFree l) : d.IsFree l := by
  rcases h l with heq | ⟨hnone, -, -⟩
  · unfold IsFree at hfree ⊢
    rw [← heq]
    exact hfree
  · exact Or.inl hnone

theorem makes_of_makeDirectory (h : d.makeDirectory p = some d') : d.Makes [p] d' := by
  rcases makeDirectory_cases h with ⟨-, rfl⟩ | ⟨b, hfree, hset, hcanon⟩
  · exact .refl d' [p]
  · intro l
    have hl := sight?_setAt Entries.at?_directory_nil (Or.inl hfree) hset l
    by_cases hb : l = b
    · subst hb
      rw [if_pos rfl] at hl
      exact Or.inr ⟨hfree, hl, p, List.mem_singleton_self p, hcanon⟩
    · rw [if_neg hb] at hl
      exact Or.inl hl

theorem makes_of_makeDirectories (h : d.makeDirectories p = some d') :
    d.Makes (directoriesTo p) d' := by
  rw [makeDirectories] at h
  generalize directoriesTo p = ps at h ⊢
  induction ps generalizing d with
  | nil =>
    obtain rfl := Option.some.inj h
    exact .refl d []
  | cons q ps ih =>
    rw [List.foldlM_cons] at h
    obtain ⟨d₁, hd, h⟩ := Option.bind_eq_some_iff.mp h
    exact (makes_of_makeDirectory hd).trans (ih h)

/-- However far the making of directories gets, they are all that is new. -/
theorem makes_makeEach (d : Disk) (ps : List FsPath) : d.Makes ps (d.makeEach ps) := by
  induction ps generalizing d with
  | nil => exact .refl d []
  | cons p ps ih =>
    rw [makeEach]
    cases hd : d.makeDirectory p with
    | none => exact .refl d (p :: ps)
    | some d₁ => exact (makes_of_makeDirectory hd).trans (ih d₁)

/-- Writing changes one location, which a look-up leads to afterwards, and led to before if
something stood there. -/
theorem write_frame {c : Content} (h : d.write p c = some d') :
    ∃ a, d.Grows a d' ∧ d'.canonical? p = some a ∧ d'.sight? a = some (.file c) ∧ d.IsFree a ∧
      (∀ l, l ≠ a → d'.sight? l = d.sight? l) ∧ (d.Stands a → d.canonical? p = some a) := by
  obtain ⟨a, ha, hfree, hset⟩ := write_cases h
  have hgrows := Grows.of_file hfree hset
  have hsight := sight?_setAt (n := .file c) (fun _ _ => rfl) hfree hset
  have hfile : d'.sight? a = some (.file c) := by
    rw [hsight, if_pos rfl]
    rfl
  refine ⟨a, hgrows, ?_, hfile, hfree, fun l hl => by rw [hsight, if_neg hl], fun hstands => ?_⟩
  · exact hgrows.canonical?_of_locate? (Or.inr (Or.inr ⟨c, hfile⟩)) ha
  · exact (Grows.refl a d).canonical?_of_locate? (Or.inr hstands) ha

end Disk

/-! ## 2. Bringing an artifact to disk -/

namespace Generator

section

variable {d d' : Disk} {output : FsPath} {code : String} {written : Bool} {e : Error}

/-- The artifact stands at a location where nothing or a file was, all else is as it was but for the
directories around it, and it was written unless it stood there before. -/
structure Delivers (d : Disk) (output : FsPath) (code : String) (d' : Disk) (written : Bool)
    (a : Location) : Prop where
  leads : d'.canonical? output = some a
  holds : d'.sight? a = some (.file (.text code))
  led : ∀ b, d.canonical? output = some b → b = a
  free : d.IsFree a
  written_iff : written = true ↔ d.sight? a ≠ some (.file (.text code))
  frame : ∀ l, l ≠ a → d.KeepsOrMakes (Disk.directoriesTo output.directory) d' l

/-- The directories for a file are made, if its name has any. -/
theorem makes_of_parent? {d₁ : Disk}
    (h : output.parent?.elim (some d) d.makeDirectories = some d₁) :
    d.Makes (Disk.directoriesTo output.directory) d₁ := by
  unfold FsPath.directory
  cases hparent : output.parent? with
  | none =>
    rw [hparent] at h
    obtain rfl := Option.some.inj h
    exact .refl d _
  | some dir =>
    rw [hparent] at h
    exact Disk.makes_of_makeDirectories h

theorem exists_delivers_of_install (h : install d output code = (d', .ok written)) :
    ∃ a, Delivers d output code d' written a := by
  cases installs_of_install h with
  | found hd hread =>
    have hmakes := makes_of_parent? hd
    obtain ⟨a, ha, hfile⟩ := Disk.readText?_eq_some_iff.mp hread
    have hold := hmakes.sight?_file_iff.mp hfile
    refine ⟨a, ha, hfile, fun b hb => ?_, Or.inr ⟨_, hold⟩, ?_, fun l _ => hmakes l⟩
    · exact Option.some.inj (((hmakes.grows a).canonical?_eq hb).symm.trans ha)
    · simp [hold]
  | written hd hread hwrite =>
    have hmakes := makes_of_parent? hd
    obtain ⟨a, hgrows, ha, hfile, hfree, hframe, hstood⟩ := Disk.write_frame hwrite
    refine ⟨a, ha, hfile, fun b hb => ?_, hmakes.isFree hfree, ?_, fun l hl => ?_⟩
    · have hb' := ((hmakes.grows a).trans hgrows).canonical?_eq hb
      exact Option.some.inj (hb'.symm.trans ha)
    · refine iff_of_true rfl fun hcode => hread ?_
      -- The name led there by the time that the directories were made.
      have hcode' := hmakes.sight?_file_iff.mpr hcode
      exact Disk.readText?_eq_some_iff.mpr ⟨a, hstood (Or.inr ⟨_, hcode'⟩), hcode'⟩
    · rcases hmakes l with heq | ⟨hnone, hdir, q, hq, hcanon⟩
      · exact Or.inl ((hframe l hl).trans heq)
      · exact Or.inr ⟨hnone, (hframe l hl).trans hdir, q, hq, hgrows.canonical?_eq hcanon⟩

theorem makes_of_install_error (h : install d output code = (d', .error e)) :
    d.Makes (Disk.directoriesTo output.directory) d' ∧
      (e = .makeDirectory output.directory ∨ e = .write output) := by
  cases installs_of_install h with
  | noDirectory _ => exact ⟨Disk.makes_makeEach d _, Or.inl rfl⟩
  | notWritten hd _ _ => exact ⟨makes_of_parent? hd, Or.inr rfl⟩

end

/-! ## 3. Runs -/

variable {g : Generator} {d : Disk} {env : Environment}

/-- Why there is no code. The checks come one after the other, and each is only made if those before
it have passed. -/
inductive Obstacle (g : Generator) (d : Disk) (env : Environment) : Error → Prop where
  | marker {x : Marker.Error} (h : Marker.parse g.marker = .error x) : Obstacle g d env (.marker x)
  | runtimeCrate {m : Marker} (hm : Marker.parse g.marker = .ok m)
      (h : Syntax.Path.parse? g.runtimeCrate = none) :
      Obstacle g d env (.runtimeCrate g.runtimeCrate)
  | notDirectory {m : Marker} {runtime : Syntax.Path} {s : FsPath}
      (hm : Marker.parse g.marker = .ok m)
      (hr : Syntax.Path.parse? g.runtimeCrate = some runtime)
      (h : g.effectiveScanPaths.find? (!d.isDirectory ·) = some s) :
      Obstacle g d env (.notDirectory s)
  | artifact {m : Marker} {runtime : Syntax.Path} {x : Artifact.Error}
      (hm : Marker.parse g.marker = .ok m)
      (hr : Syntax.Path.parse? g.runtimeCrate = some runtime)
      (hs : g.effectiveScanPaths.find? (!d.isDirectory ·) = none)
      (haborted : ((g.program d env).extract m g.crateName g.cancellation).aborted = false)
      (h : Artifact.ofDescriptors runtime
        ((g.program d env).extract m g.crateName g.cancellation).descriptors = .error x) :
      Obstacle g d env (.artifact x)

/-- What a pass over a program comes to. -/
theorem result_generateFrom (g : Generator) (m : Marker) (runtime : Syntax.Path) (p : Program) :
    let x := p.extract m g.crateName g.cancellation
    (g.generateFrom m runtime p).result =
      if x.aborted then .ok ⟨none, x.descriptors, true⟩
      else match Artifact.ofDescriptors runtime x.descriptors with
        | .error e => .error (.artifact e)
        | .ok a => .ok ⟨some (a.text ++ ((g.shownLog x).map Artifact.diagnosticsText).getD ""),
            x.descriptors, false⟩ := by
  unfold generateFrom Artifact.render
  generalize p.extract m g.crateName g.cancellation = x
  obtain ⟨descriptors, log, aborted⟩ := x
  cases aborted with
  | true => rfl
  | false =>
    simp only [Bool.false_eq_true, if_false]
    cases Artifact.ofDescriptors runtime descriptors with
    | error e => rfl
    | ok a => rfl

theorem generateFrom_eq_error_iff {m : Marker} {runtime : Syntax.Path} {p : Program} {e : Error} :
    (g.generateFrom m runtime p).result = .error e ↔
      (p.extract m g.crateName g.cancellation).aborted = false ∧
        ∃ x, Artifact.ofDescriptors runtime
          (p.extract m g.crateName g.cancellation).descriptors = .error x ∧ e = .artifact x := by
  rw [result_generateFrom]
  generalize p.extract m g.crateName g.cancellation = x
  cases x.aborted with
  | true => simp
  | false =>
    cases Artifact.ofDescriptors runtime x.descriptors with
    | error y => simp [eq_comm]
    | ok a => simp

/-- With a marker and the path of a crate, all depends on the directories first. -/
theorem result_generate {m : Marker} {runtime : Syntax.Path} (hm : Marker.parse g.marker = .ok m)
    (hr : Syntax.Path.parse? g.runtimeCrate = some runtime) :
    (g.generate d env).result = match g.effectiveScanPaths.find? (!d.isDirectory ·) with
      | some s => .error (.notDirectory s)
      | none => (g.generateFrom m runtime (g.program d env)).result := by
  have hload : (Program.load d (g.effectiveOptions env) g.effectiveScanPaths).2 =
      match g.effectiveScanPaths.find? (!d.isDirectory ·) with
      | some s => .error s
      | none => .ok (g.program d env) := Loading.load_eq d _ _
  unfold generate
  rw [hm, hr]
  simp only
  generalize Program.load d (g.effectiveOptions env) g.effectiveScanPaths = r at hload
  obtain ⟨events, loaded⟩ := r
  cases hs : g.effectiveScanPaths.find? (!d.isDirectory ·) with
  | some s =>
    rw [hs] at hload
    subst hload
    rfl
  | none =>
    rw [hs] at hload
    subst hload
    rfl

/-- A generation fails because of an obstacle, and only then. -/
theorem generate_eq_error_iff {e : Error} :
    (g.generate d env).result = .error e ↔ g.Obstacle d env e := by
  constructor
  · intro h
    cases hm : Marker.parse g.marker with
    | error x =>
      rw [generate, hm] at h
      exact Except.error.inj h ▸ .marker hm
    | ok m =>
    cases hr : Syntax.Path.parse? g.runtimeCrate with
    | none =>
      rw [generate, hm, hr] at h
      exact Except.error.inj h ▸ .runtimeCrate hm hr
    | some runtime =>
    rw [result_generate hm hr] at h
    cases hs : g.effectiveScanPaths.find? (!d.isDirectory ·) with
    | some s =>
      rw [hs] at h
      exact Except.error.inj h ▸ .notDirectory hm hr hs
    | none =>
      rw [hs] at h
      obtain ⟨haborted, x, hx, rfl⟩ := generateFrom_eq_error_iff.mp h
      exact .artifact hm hr hs haborted hx
  · intro h
    cases h with
    | marker hm => rw [generate, hm]
    | runtimeCrate hm hr => rw [generate, hm, hr]
    | notDirectory hm hr hs => rw [result_generate hm hr, hs]
    | artifact hm hr hs haborted hx =>
      rw [result_generate hm hr, hs]
      exact generateFrom_eq_error_iff.mpr ⟨haborted, _, hx, rfl⟩

/-- The code is the artifact for the descriptors of the pass, with the log of the pass if that is
shown. -/
def Renders (g : Generator) (d : Disk) (env : Environment) (descriptors : List Descriptor)
    (code : String) : Prop :=
  ∃ m runtime, Marker.parse g.marker = .ok m ∧
    Syntax.Path.parse? g.runtimeCrate = some runtime ∧
    ((g.program d env).extract m g.crateName g.cancellation).descriptors = descriptors ∧
    Artifact.render descriptors runtime
      (g.shownLog ((g.program d env).extract m g.crateName g.cancellation)) = .ok code

/-- A generation that does not fail has code unless the pass was cancelled. -/
theorem generate_cases {x : Generated} (h : (g.generate d env).result = .ok x) :
    (x.aborted = true ∧ x.code = none) ∨
      (x.aborted = false ∧ ∃ code, x.code = some code ∧ g.Renders d env x.descriptors code) := by
  -- What a generation may fail for is ruled out in the order in which it is checked.
  cases hm : Marker.parse g.marker with
  | error y =>
    rw [generate, hm] at h
    cases h
  | ok m =>
  cases hr : Syntax.Path.parse? g.runtimeCrate with
  | none =>
    rw [generate, hm, hr] at h
    cases h
  | some runtime =>
  rw [result_generate hm hr] at h
  cases hs : g.effectiveScanPaths.find? (!d.isDirectory ·) with
  | some s =>
    rw [hs] at h
    cases h
  | none =>
  rw [hs] at h
  simp only at h
  rw [result_generateFrom] at h
  split at h
  case isTrue =>
    cases h
    exact Or.inl ⟨rfl, rfl⟩
  case isFalse =>
    split at h
    case h_1 => cases h
    case h_2 a ha =>
      cases h
      refine Or.inr ⟨rfl, _, rfl, m, runtime, hm, hr, rfl, ?_⟩
      rw [Artifact.render, ha]
      rfl

end Generator

end EnumCatalog
