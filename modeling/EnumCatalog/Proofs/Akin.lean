import EnumCatalog.Proofs.Reference
import EnumCatalog.Proofs.Resolution

/-!
# Candidates that come to the same

What a candidate comes to depends on little of what is written on it: by which name it can be
registered, and which database names its markers ask for. Candidates of two programs that agree in
this much are *akin* (`Candidate.Akin`), whatever their other attributes are and however the markers
themselves are written. Programs whose candidates are akin one by one have the same descriptors
under every cancellation, the search for the marker's crate apart (`Program.extractAnyway_congr`).
-/

set_option autoImplicit false

namespace EnumCatalog

open Syntax (Attribute)

namespace Candidate

/-- Candidates that come to the same, each with the scopes of its own program. -/
structure Akin (ss ss' : Scopes) (m : Marker) (c c' : Candidate) : Prop where
  key : c.key = c'.key
  enabled : c.enabled = c'.enabled
  qualifiedName : ∀ crateName, c.qualifiedName crateName = c'.qualifiedName crateName
  aliases : (c.markers ss m).map Attribute.aliasName? = (c'.markers ss' m).map Attribute.aliasName?

variable {ss ss' : Scopes} {m : Marker} {c c' : Candidate}

theorem Akin.describe_eq (h : c.Akin ss ss' m c') (crateName : String) :
    c.describe ss m crateName = c'.describe ss' m crateName := by
  have hempty : (c.markers ss m).isEmpty = (c'.markers ss' m).isEmpty := by
    rw [← List.isEmpty_map (f := Attribute.aliasName?), h.aliases, List.isEmpty_map]
  have hnames : (c.markers ss m).filterMap Attribute.aliasName? =
      (c'.markers ss' m).filterMap Attribute.aliasName? := by
    have hsplit (as : List Attribute) :
        as.filterMap Attribute.aliasName? = (as.map Attribute.aliasName?).filterMap id := by
      rw [List.filterMap_map, Function.id_comp]
    rw [hsplit, hsplit, h.aliases]
  unfold describe Extraction.examine
  rw [h.qualifiedName crateName]
  cases c'.qualifiedName crateName with
  | error reason => rfl
  | ok name => simp only [hempty, hnames]

theorem filterMap_describe_congr {cs cs' : List Candidate} (h : List.Forall₂ (Akin ss ss' m) cs cs')
    (crateName : String) :
    cs.filterMap (·.describe ss m crateName) = cs'.filterMap (·.describe ss' m crateName) := by
  induction h with
  | nil => rfl
  | cons hakin _ ih =>
    rw [List.filterMap_cons, List.filterMap_cons, hakin.describe_eq crateName, ih]

/-- Attributes of which the same ones are markers, and these ask for the same names. -/
theorem aliases_eq {as as' : List Attribute}
    (h : List.Forall₂ (fun a a' => c.isMarker ss m a = c'.isMarker ss' m a' ∧
      (c.isMarker ss m a = true → a.aliasName? = a'.aliasName?)) as as') :
    (as.filter (c.isMarker ss m)).map Attribute.aliasName? =
      (as'.filter (c'.isMarker ss' m)).map Attribute.aliasName? := by
  induction h with
  | nil => rfl
  | @cons a a' as as' hhead _ ih =>
    obtain ⟨hmarker, halias⟩ := hhead
    rw [List.filter_cons, List.filter_cons, ← hmarker]
    by_cases ha : c.isMarker ss m a = true
    · rw [if_pos ha, if_pos ha, List.map_cons, List.map_cons, halias ha, ih]
    · rw [if_neg ha, if_neg ha]
      exact ih

/-- A candidate comes to the same with scopes in which its attributes are markers alike. -/
theorem akin_self (h : ∀ a ∈ c.enum.attrs,
    m.segments ∈ ss.resolve c.scope a.name ↔ m.segments ∈ ss'.resolve c.scope a.name) :
    c.Akin ss ss' m c where
  key := rfl
  enabled := rfl
  qualifiedName _ := rfl
  aliases := by
    refine aliases_eq (List.forall₂_same.mpr fun a ha => ⟨?_, fun _ => rfl⟩)
    rw [Bool.eq_iff_iff, isMarker_iff, isMarker_iff]
    exact h a ha

end Candidate

namespace Extraction

/-- What a pass finds depends on what each candidate comes to. -/
theorem descriptors_pass_congr {f g : Candidate → List Note × Option Descriptor}
    {cs cs' : List Candidate}
    (h : cs.filterMap (fun c => (f c).2) = cs'.filterMap fun c => (g c).2) (stop : Cancellation)
    (found : Nat) : (pass stop f found cs).descriptors = (pass stop g found cs').descriptors := by
  obtain ⟨_ | k⟩ := stop
  · rw [← Cancellation.never, descriptors_pass_never, descriptors_pass_never]
    exact h
  · rw [descriptors_pass, descriptors_pass, h]

end Extraction

namespace Program

variable {p p' : Program} {m : Marker} {crateName : String}

/-- The live candidates of programs whose candidates are akin are akin. -/
theorem forall₂_liveCandidates
    (h : List.Forall₂ (Candidate.Akin p.scopes p'.scopes m) p.declarations.candidates
      p'.declarations.candidates) :
    List.Forall₂ (Candidate.Akin p.scopes p'.scopes m) p.liveCandidates p'.liveCandidates := by
  refine Candidate.forall₂_dedup (fun _ _ hakin => hakin.key) ?_
  refine List.rel_filter (p := fun c => c.enabled != some false)
    (q := fun c => c.enabled != some false) (fun c c' hakin => ?_) h
  show (c.enabled != some false) = true ↔ (c'.enabled != some false) = true
  rw [hakin.enabled]

/-- Programs whose candidates are akin have the same descriptors, the search apart. -/
theorem extractAnyway_congr
    (h : List.Forall₂ (Candidate.Akin p.scopes p'.scopes m) p.declarations.candidates
      p'.declarations.candidates) (stop : Cancellation) :
    (p.extractAnyway m crateName stop).descriptors =
      (p'.extractAnyway m crateName stop).descriptors :=
  Extraction.descriptors_pass_congr
    (Candidate.filterMap_describe_congr (forall₂_liveCandidates h) crateName) stop 0

/-- The search decides whether the descriptors are kept at all. -/
theorem descriptors_extract_eq_ite (p : Program) (m : Marker) (crateName : String)
    (stop : Cancellation) :
    (p.extract m crateName stop).descriptors =
      if p.mentions m.crateName then (p.extractAnyway m crateName stop).descriptors else [] := by
  unfold extract
  split
  · rfl
  · rfl

/-- Where the search apart the same is found, the search makes a difference if it comes to
different answers and there is something to find. -/
theorem descriptors_extract_eq_iff {stop : Cancellation}
    (h : (p.extractAnyway m crateName stop).descriptors =
      (p'.extractAnyway m crateName stop).descriptors) :
    (p.extract m crateName stop).descriptors = (p'.extract m crateName stop).descriptors ↔
      p.mentions m.crateName = p'.mentions m.crateName ∨
        (p.extractAnyway m crateName stop).descriptors = [] := by
  rw [descriptors_extract_eq_ite, descriptors_extract_eq_ite, ← h]
  cases p.mentions m.crateName with
  | true => cases p'.mentions m.crateName <;> simp
  | false =>
    cases p'.mentions m.crateName with
    | true => simp only [Bool.false_eq_true, if_false, if_true, false_or]; exact eq_comm
    | false => simp

end Program

end EnumCatalog
