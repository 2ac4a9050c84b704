import EnumCatalog.Proofs.Delivery

/-!
# What the log accounts for

The log of a pass announces how many candidates there are, and then says of each of them what became
of it. A candidate is concluded with one note: it is skipped, it is without the marker, or it is
tagged (`Candidate.Concludes`). Only in front of the last of these there may be other notes, one for
each database name that a different one overrides.

So nothing gets lost: of a pass that is not aborted, the number that is announced is the number of
descriptors and of the notes on what has none (`Program.log_extract`). The enums that are left out of
the build are not counted, as they are noted before the candidates.
-/

set_option autoImplicit false

namespace EnumCatalog

open Syntax (Attribute)

/-! ## 1. Kinds of notes -/

namespace Note

/-- It says of an enum that it is left out of the build. -/
def isDisabled : Note → Bool
  | .skipped _ _ reason => reason == .notCompiled
  | _ => false

/-- It says of a candidate that it is skipped. -/
def isSkip : Note → Bool
  | .skipped _ _ reason => reason != .notCompiled
  | _ => false

/-- It says of a candidate that it is without the marker. -/
def isUntagged : Note → Bool
  | .untagged _ _ => true
  | _ => false

/-- What it says of a descriptor, if it says that there is one. -/
def tagged? : Note → Option Descriptor
  | .tagged name aliasName => some ⟨name, aliasName⟩
  | _ => none

/-- A note on each two names in a row that differ. -/
def onOverrides (name : String) (aliases : List String) : List Note :=
  ((aliases.zip aliases.tail).filter fun pair => pair.1 != pair.2).map fun pair =>
    .overridden name pair.1 pair.2

theorem overrides_eq (name : String) (aliases : List String) :
    overrides name aliases = onOverrides name aliases := by
  induction aliases with
  | nil => rfl
  | cons a rest ih =>
    cases rest with
    | nil => rfl
    | cons b rest =>
      rw [overrides, ih]
      by_cases hab : a = b
      · simp [onOverrides, hab]
      · simp [onOverrides, hab]

/-- What is noted on database names concludes nothing. -/
theorem mem_onOverrides {name : String} {aliases : List String} {n : Note}
    (h : n ∈ onOverrides name aliases) :
    n.isDisabled = false ∧ n.isSkip = false ∧ n.isUntagged = false ∧ n.tagged? = none := by
  obtain ⟨pair, -, rfl⟩ := List.mem_map.mp h
  exact ⟨rfl, rfl, rfl, rfl⟩

end Note

/-! ## 2. Reports -/

/-- What a log says of a candidate. -/
structure Report where
  /-- Notes on database names that are overridden. -/
  overridden : List Note
  /-- The note that concludes. -/
  conclusion : Note

def Report.notes (r : Report) : List Note := r.overridden ++ [r.conclusion]

namespace Candidate

variable {ss : Scopes} {m : Marker} {crateName : String} {c : Candidate}

/-- The database names of the markers of a candidate that ask for one, in order. -/
def aliasNames (ss : Scopes) (m : Marker) (c : Candidate) : List String :=
  (c.markers ss m).filterMap Attribute.aliasName?

/-- A candidate is concluded with one note, and only a tagged one has notes in front of it. -/
inductive Concludes (ss : Scopes) (m : Marker) (crateName : String) (c : Candidate) :
    Report → Prop
  | skipped {reason : SkipReason} (hname : c.qualifiedName crateName = .error reason) :
    Concludes ss m crateName c ⟨[], .skipped c.name c.file reason⟩
  | untagged {name : String} (hname : c.qualifiedName crateName = .ok name)
    (htagged : ¬ c.Tagged ss m) : Concludes ss m crateName c ⟨[], .untagged name m⟩
  | tagged {name : String} (hname : c.qualifiedName crateName = .ok name)
    (htagged : c.Tagged ss m) :
    Concludes ss m crateName c
      ⟨Note.onOverrides name (c.aliasNames ss m), .tagged name (c.lastAlias ss m)⟩

/-- What is left out of the build is no candidate, so no candidate is skipped for that. -/
theorem qualifiedName_ne_notCompiled : c.qualifiedName crateName ≠ .error .notCompiled := by
  unfold qualifiedName
  cases c.module? with
  | none => simp
  | some path =>
    simp only
    split
    · simp
    · split
      · simp
      · split
        · simp
        · simp

/-- What is made of a candidate are the notes of its report and the descriptor that it concludes
with. -/
theorem exists_concludes (ss : Scopes) (m : Marker) (crateName : String) (c : Candidate) :
    ∃ r, c.Concludes ss m crateName r ∧
      Extraction.examine ss m crateName c = (r.notes, r.conclusion.tagged?) := by
  unfold Extraction.examine
  cases hname : c.qualifiedName crateName with
  | error reason => exact ⟨_, .skipped hname, rfl⟩
  | ok name =>
    by_cases htagged : c.Tagged ss m
    · refine ⟨_, .tagged hname htagged, ?_⟩
      have hmarkers : (c.markers ss m).isEmpty = false :=
        List.isEmpty_eq_false_iff.mpr (markers_ne_nil_iff.mpr htagged)
      simp only [hmarkers, Bool.false_eq_true, if_false, getLast?_aliasNames, Note.overrides_eq]
      rfl
    · refine ⟨_, .untagged hname htagged, ?_⟩
      have hmarkers : (c.markers ss m).isEmpty = true := by
        rw [List.isEmpty_iff]
        by_contra hne
        exact htagged (markers_ne_nil_iff.mp hne)
      simp only [hmarkers, if_true]
      rfl

/-- The note that concludes is of one kind. -/
theorem Concludes.counts {r : Report} (h : c.Concludes ss m crateName r) :
    r.notes.countP Note.isDisabled = 0 ∧
      r.notes.filterMap Note.tagged? = r.conclusion.tagged?.toList ∧
      1 = r.conclusion.tagged?.toList.length + r.notes.countP Note.isSkip +
        r.notes.countP Note.isUntagged := by
  cases h with
  | @skipped reason hname =>
    have hreason : reason ≠ .notCompiled := by
      rintro rfl
      exact qualifiedName_ne_notCompiled hname
    simp [Report.notes, Note.isDisabled, Note.tagged?, Note.isSkip, Note.isUntagged, hreason]
  | untagged hname htagged =>
    simp [Report.notes, Note.isDisabled, Note.tagged?, Note.isSkip, Note.isUntagged]
  | @tagged name hname htagged =>
    -- The notes on overrides are of another kind than those that conclude.
    have hnotes := fun n (hn : n ∈ Note.onOverrides name (c.aliasNames ss m)) =>
      Note.mem_onOverrides hn
    have hdisabled : (Note.onOverrides name (c.aliasNames ss m)).countP Note.isDisabled = 0 :=
      List.countP_eq_zero.mpr fun n hn => by simp [(hnotes n hn).1]
    have hskip : (Note.onOverrides name (c.aliasNames ss m)).countP Note.isSkip = 0 :=
      List.countP_eq_zero.mpr fun n hn => by simp [(hnotes n hn).2.1]
    have huntagged : (Note.onOverrides name (c.aliasNames ss m)).countP Note.isUntagged = 0 :=
      List.countP_eq_zero.mpr fun n hn => by simp [(hnotes n hn).2.2.1]
    have hfound : (Note.onOverrides name (c.aliasNames ss m)).filterMap Note.tagged? = [] :=
      List.filterMap_eq_nil_iff.mpr fun n hn => (hnotes n hn).2.2.2
    simp only [Report.notes, List.countP_append, List.filterMap_append, hdisabled, hskip,
      huntagged, hfound]
    simp [Note.isDisabled, Note.tagged?, Note.isSkip, Note.isUntagged]

/-- Each candidate is counted once. -/
theorem Concludes.counts_all {cs : List Candidate} {rs : List Report}
    (h : List.Forall₂ (Concludes ss m crateName) cs rs) :
    (rs.flatMap Report.notes).countP Note.isDisabled = 0 ∧
      (rs.flatMap Report.notes).filterMap Note.tagged? = rs.filterMap (·.conclusion.tagged?) ∧
      cs.length = (rs.filterMap (·.conclusion.tagged?)).length +
        (rs.flatMap Report.notes).countP Note.isSkip +
        (rs.flatMap Report.notes).countP Note.isUntagged := by
  induction h with
  | nil => exact ⟨rfl, rfl, rfl⟩
  | @cons c r cs rs hc hcs ih =>
    obtain ⟨hdisabled, hfound, hone⟩ := hc.counts
    obtain ⟨ihdisabled, ihfound, ihlength⟩ := ih
    have hsplit : (r :: rs).filterMap (·.conclusion.tagged?) =
        r.conclusion.tagged?.toList ++ rs.filterMap (·.conclusion.tagged?) := by
      rw [List.filterMap_cons]
      cases r.conclusion.tagged? <;> rfl
    rw [hsplit]
    simp only [List.flatMap_cons, List.countP_append, List.filterMap_append, List.length_append,
      List.length_cons]
    refine ⟨?_, ?_, ?_⟩
    · omega
    · rw [hfound, ihfound]
    · omega

end Candidate

/-! ## 3. The pass -/

namespace Extraction

/-- A pass that is never cancelled notes what each candidate comes to. -/
theorem log_pass_never (examine : Candidate → List Note × Option Descriptor) (found : Nat)
    (cs : List Candidate) :
    (pass .never examine found cs).log = cs.flatMap fun c => (examine c).1 := by
  induction cs generalizing found with
  | nil => rfl
  | cons c cs ih =>
    rw [pass_never_cons, List.flatMap_cons]
    show (examine c).1 ++ (pass .never examine _ cs).log = _
    rw [ih]

/-- A pass that is not aborted has not been cancelled in time. -/
theorem pass_eq_never {stop : Cancellation} {examine : Candidate → List Note × Option Descriptor}
    {found : Nat} {cs : List Candidate} (h : (pass stop examine found cs).aborted = false) :
    pass stop examine found cs = pass .never examine found cs := by
  obtain ⟨_ | k⟩ := stop
  · rfl
  · refine (pass_eq_or cs k found found).elim (fun haborted => ?_) fun heq => heq.2
    exact absurd (h.symm.trans haborted.1) Bool.false_ne_true

/-- A pass that is not aborted reports on every candidate. -/
theorem exists_reports {ss : Scopes} {m : Marker} {crateName : String} {stop : Cancellation}
    {found : Nat} {cs : List Candidate}
    (h : (pass stop (examine ss m crateName) found cs).aborted = false) :
    ∃ rs, List.Forall₂ (Candidate.Concludes ss m crateName) cs rs ∧
      (pass stop (examine ss m crateName) found cs).log = rs.flatMap Report.notes ∧
      (pass stop (examine ss m crateName) found cs).descriptors =
        rs.filterMap (·.conclusion.tagged?) := by
  rw [pass_eq_never h, log_pass_never, descriptors_pass_never]
  clear h
  induction cs with
  | nil => exact ⟨[], .nil, rfl, rfl⟩
  | cons c cs ih =>
    obtain ⟨rs, hrs, hlog, hfound⟩ := ih
    obtain ⟨r, hr, hexamine⟩ := Candidate.exists_concludes ss m crateName c
    refine ⟨r :: rs, .cons hr hrs, ?_, ?_⟩
    · rw [List.flatMap_cons, List.flatMap_cons, hlog, hexamine]
    · rw [List.filterMap_cons, List.filterMap_cons, hfound, hexamine]

end Extraction

namespace Program

variable (p : Program) (m : Marker) (crateName : String) (stop : Cancellation)

/-- What the log says before it comes to the candidates. -/
def openingNotes : List Note :=
  .found p.liveCandidates.length p.files.length ::
    p.disabledCandidates.map fun c => .skipped c.name c.file .notCompiled

/-- Nothing of that is said of a candidate. -/
theorem mem_openingNotes {n : Note} (h : n ∈ p.openingNotes) :
    n.isSkip = false ∧ n.isUntagged = false ∧ n.tagged? = none := by
  rcases List.mem_cons.mp h with rfl | h
  · exact ⟨rfl, rfl, rfl⟩
  · obtain ⟨c, -, rfl⟩ := List.mem_map.mp h
    exact ⟨rfl, rfl, rfl⟩

/-- **Every candidate is accounted for.** The log announces how many candidates there are. Then come
one note for each enum that is left out of the build, and the reports on the candidates in order. As
many candidates as were announced are concluded, each with a descriptor or with a note that says why
it has none; and the notes that say of a descriptor are those of the descriptors, in their order. -/
theorem log_extract (hm : p.mentions m.crateName = true)
    (ha : (p.extract m crateName stop).aborted = false) :
    ∃ (announced : Nat) (rs : List Report),
      (p.extract m crateName stop).log = .found announced p.files.length ::
        (p.disabledCandidates.map fun c => .skipped c.name c.file .notCompiled) ++
          rs.flatMap Report.notes ∧
      List.Forall₂ (Candidate.Concludes p.scopes m crateName) p.liveCandidates rs ∧
      (rs.flatMap Report.notes).countP Note.isDisabled = 0 ∧
      announced = (p.extract m crateName stop).descriptors.length +
        (p.extract m crateName stop).log.countP Note.isSkip +
        (p.extract m crateName stop).log.countP Note.isUntagged ∧
      (p.extract m crateName stop).log.filterMap Note.tagged? =
        (p.extract m crateName stop).descriptors := by
  unfold extract at ha ⊢
  rw [if_pos hm] at ha ⊢
  obtain ⟨rs, hrs, hpass, hfound⟩ := Extraction.exists_reports ha
  obtain ⟨hdisabled, htagged, hlength⟩ := Candidate.Concludes.counts_all hrs
  have hlog : ((Extraction.pass stop (Extraction.examine p.scopes m crateName) 0
      p.liveCandidates).withNotes p.openingNotes).log =
        p.openingNotes ++ rs.flatMap Report.notes := by
    rw [← hpass]
    rfl
  -- The opening notes say nothing of candidates, so all that is counted is in the reports.
  have hskip : p.openingNotes.countP Note.isSkip = 0 :=
    List.countP_eq_zero.mpr fun n hn => by simp [(p.mem_openingNotes hn).1]
  have huntagged : p.openingNotes.countP Note.isUntagged = 0 :=
    List.countP_eq_zero.mpr fun n hn => by simp [(p.mem_openingNotes hn).2.1]
  have hnone : p.openingNotes.filterMap Note.tagged? = [] :=
    List.filterMap_eq_nil_iff.mpr fun n hn => (p.mem_openingNotes hn).2.2
  refine ⟨p.liveCandidates.length, rs, hlog, hrs, hdisabled, ?_, ?_⟩
  · show p.liveCandidates.length = (Extraction.pass _ _ 0 p.liveCandidates).descriptors.length +
      ((Extraction.pass _ _ 0 p.liveCandidates).withNotes p.openingNotes).log.countP _ +
      ((Extraction.pass _ _ 0 p.liveCandidates).withNotes p.openingNotes).log.countP _
    rw [hlog, hfound, List.countP_append, List.countP_append, hskip, huntagged, Nat.zero_add,
      Nat.zero_add]
    exact hlength
  · show ((Extraction.pass _ _ 0 p.liveCandidates).withNotes p.openingNotes).log.filterMap _ =
      (Extraction.pass _ _ 0 p.liveCandidates).descriptors
    rw [hlog, hfound, List.filterMap_append, hnone, List.nil_append]
    exact htagged

/-- An enum whose second marker overrides the name that its first one asks for, one without the
marker, and one that is left out of the build. -/
def mixedText : String :=
  "#[a::b(alias=\"c\")]#[a::b(alias=\"d\")]pub enum E{}#[e]enum F{}#[cfg(test)]enum H{}"

theorem log_extract_mixedText :
    let p := ofRootText .none mixedText
    p.mentions "a" = true ∧ (p.extract ⟨["a", "b"]⟩ "crate" .never).aborted = false ∧
      (p.extract ⟨["a", "b"]⟩ "crate" .never).descriptors = [⟨"crate::E", some "d"⟩] ∧
      (p.extract ⟨["a", "b"]⟩ "crate" .never).log.length = 5 ∧
      ∃ (announced : Nat) (rs : List Report),
        (p.extract ⟨["a", "b"]⟩ "crate" .never).log = .found announced p.files.length ::
          (p.disabledCandidates.map fun c => .skipped c.name c.file .notCompiled) ++
            rs.flatMap Report.notes ∧
        List.Forall₂ (Candidate.Concludes p.scopes ⟨["a", "b"]⟩ "crate") p.liveCandidates rs ∧
        announced = (p.extract ⟨["a", "b"]⟩ "crate" .never).descriptors.length +
          (p.extract ⟨["a", "b"]⟩ "crate" .never).log.countP Note.isSkip +
          (p.extract ⟨["a", "b"]⟩ "crate" .never).log.countP Note.isUntagged ∧
        (p.extract ⟨["a", "b"]⟩ "crate" .never).log.filterMap Note.tagged? =
          (p.extract ⟨["a", "b"]⟩ "crate" .never).descriptors := by
  intro p
  have hrun : p.mentions "a" = true ∧ (p.extract ⟨["a", "b"]⟩ "crate" .never).aborted = false ∧
      (p.extract ⟨["a", "b"]⟩ "crate" .never).descriptors = [⟨"crate::E", some "d"⟩] ∧
      (p.extract ⟨["a", "b"]⟩ "crate" .never).log.length = 5 := by decide +kernel
  obtain ⟨hm, ha, hfound, hlength⟩ := hrun
  obtain ⟨announced, rs, hlog, hrs, -, hannounced, htagged⟩ :=
    log_extract p ⟨["a", "b"]⟩ "crate" .never hm ha
  exact ⟨hm, ha, hfound, hlength, announced, rs, hlog, hrs, hannounced, htagged⟩

end Program

end EnumCatalog
