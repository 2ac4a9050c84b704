import EnumCatalog.Proofs.Inlining
import EnumCatalog.Proofs.OutsideFiles
import Mathlib.Data.List.Flatten

/-!
# The order of the files

The order of the files of a program decides three things: the numbers of the scopes, which scope is
found first of those that belong to one module, and which candidate comes first of those with one
key. If no module has two scopes, the last two are settled within a file, and the numbers are no part
of what is found. So another order of the files orders the descriptors otherwise and changes none of
them (`Program.descriptors_perm_of_files_perm`).

Any order comes of any other by swapping neighbours, and a swap moves one file: the block of its
scopes is put in elsewhere, or it is in no module and adds nothing at either place.
-/

set_option autoImplicit false

namespace EnumCatalog

/-! ## 1. Scopes -/

namespace Declarations

variable {o : Cfg.Options} {us vs : List SourceUnit}

/-- A file that is numbered from elsewhere declares the same scopes and twins of the candidates. -/
theorem ofUnit_relocate (o : Cfg.Options) (n n' : ScopeId) (u : SourceUnit) :
    (ofUnit o n' u).scopes = (ofUnit o n u).scopes ∧
      List.Forall₂ (Candidate.Twin (BlockShift (ofUnit o n u).scopes.length n n'))
        (ofUnit o n u).candidates (ofUnit o n' u).candidates := by
  rw [ofUnit_eq_ofBlock, ofUnit_eq_ofBlock, length_scopes_ofBlock]
  exact ofBlock_relocate o (.ofUnit u) u.path n n' u.source.items

theorem scopes_ofUnits (next : ScopeId) (us : List SourceUnit) :
    (ofUnits o next us).scopes = us.flatMap fun u => (ofUnit o 0 u).scopes := by
  induction us generalizing next with
  | nil => rfl
  | cons u us ih =>
    rw [ofUnits_cons, scopes_append, ih, (ofUnit_relocate o 0 next u).1, List.flatMap_cons]

theorem scopes_ofUnits_perm (h : us.Perm vs) :
    (ofUnits o 0 us).scopes.Perm (ofUnits o 0 vs).scopes := by
  rw [scopes_ofUnits, scopes_ofUnits]
  exact h.flatMap_right _

end Declarations

namespace Program

variable {o : Cfg.Options} {m : Marker} {crateName : String}

/-- No module has two scopes, whether files or modules in braces. -/
def HasLoneScopes (p : Program) : Prop := (p.declarations.scopes.filterMap (·.module?)).Nodup

instance (p : Program) : Decidable p.HasLoneScopes :=
  inferInstanceAs (Decidable (List.Nodup _))

theorem HasLoneScopes.of_perm {us vs : List SourceUnit} (hus : HasLoneScopes ⟨us, o⟩)
    (h : us.Perm vs) : HasLoneScopes ⟨vs, o⟩ :=
  (((Declarations.scopes_ofUnits_perm h).filterMap _).nodup_iff).mp hus

/-- No other file has a scope of a module of this file's. -/
theorem HasLoneScopes.ne_of_mem {us vs : List SourceUnit} {u : SourceUnit}
    (h : HasLoneScopes ⟨us ++ u :: vs, o⟩) {n : ScopeId} {s t : Scope} {path : ModulePath}
    (hs : s ∈ (Declarations.ofUnit o n u).scopes) (hpath : s.module? = some path)
    (ht : t ∈ (Declarations.ofUnits o 0 (us ++ vs)).scopes) : t.module? ≠ some path := by
  intro heq
  have hfirst : HasLoneScopes ⟨u :: (us ++ vs), o⟩ := h.of_perm List.perm_middle
  rw [HasLoneScopes, declarations, Declarations.scopes_ofUnits, List.flatMap_cons,
    ← Declarations.scopes_ofUnits 0, List.filterMap_append, List.nodup_append] at hfirst
  rw [(Declarations.ofUnit_relocate o 0 n u).1] at hs
  exact hfirst.2.2 path (List.mem_filterMap.mpr ⟨s, hs, hpath⟩) path
    (List.mem_filterMap.mpr ⟨t, ht, heq⟩) rfl

/-! ## 2. Files -/

theorem descriptors_extractAnyway_never (p : Program) :
    (p.extractAnyway m crateName .never).descriptors =
      p.liveCandidates.filterMap (·.describe p.scopes m crateName) :=
  Extraction.descriptors_pass_never _ 0 p.liveCandidates

/-- One file may be anywhere among the others. -/
theorem descriptors_extractAnyway_perm_of_insert {us vs us' vs' : List SourceUnit} {u : SourceUnit}
    (hrest : us ++ vs = us' ++ vs') (h : HasLoneScopes ⟨us ++ u :: vs, o⟩) :
    ((Program.mk (us ++ u :: vs) o).extractAnyway m crateName .never).descriptors.Perm
      ((Program.mk (us' ++ u :: vs') o).extractAnyway m crateName .never).descriptors := by
  cases hu : u.module? with
  | none =>
    rw [descriptors_extractAnyway_insert (Declarations.covers_outside hu _),
      descriptors_extractAnyway_insert (Declarations.covers_outside hu _), hrest]
  | some root =>
    have hinsert := Declarations.isInsertion_ofUnits o us u vs
    have hinsert' := Declarations.isInsertion_ofUnits o us' u vs'
    rw [← hrest] at hinsert'
    obtain ⟨hscopes, htwins⟩ := Declarations.ofUnit_relocate o
      (Declarations.scopeCountOf us) (Declarations.scopeCountOf us') u
    rw [descriptors_extractAnyway_never, descriptors_extractAnyway_never]
    exact filterMap_describe_perm_of_relocate hinsert hinsert' hscopes htwins
      (fun a ha => Declarations.exists_module_of_mem_ofUnit hu ha)
      (fun c hc => Declarations.exists_scope_of_mem_ofUnits hc)
      fun s hs path hpath t ht => h.ne_of_mem hs hpath ht

/-- The files behind others may come in another order. -/
theorem descriptors_extractAnyway_perm {us vs : List SourceUnit} (h : us.Perm vs)
    (before : List SourceUnit) (hone : HasLoneScopes ⟨before ++ us, o⟩) :
    ((Program.mk (before ++ us) o).extractAnyway m crateName .never).descriptors.Perm
      ((Program.mk (before ++ vs) o).extractAnyway m crateName .never).descriptors := by
  induction h generalizing before with
  | nil => exact List.Perm.refl _
  | cons u _ ih =>
    have hrest := ih (before ++ [u])
    simp only [List.append_assoc, List.singleton_append] at hrest
    exact hrest hone
  | swap u v us =>
    have hmoved : ((Program.mk (before ++ v :: u :: us) o).extractAnyway m crateName
        .never).descriptors.Perm
          ((Program.mk ((before ++ [u]) ++ v :: us) o).extractAnyway m crateName .never).descriptors :=
      descriptors_extractAnyway_perm_of_insert (by simp) hone
    rw [List.append_assoc] at hmoved
    exact hmoved
  | trans h₁ _ ih₁ ih₂ =>
    exact (ih₁ before hone).trans (ih₂ before (hone.of_perm (h₁.append_left before)))

theorem mentions_eq_of_perm {p q : Program} (h : p.files.Perm q.files) (name : String) :
    p.mentions name = q.mentions name := h.any_eq

/-- **The order of the files orders what is found.** If no module has two scopes, programs of the
same files in different orders have the same descriptors but for their order. The pass is not
cancelled, or it is cancelled before it starts. -/
theorem descriptors_perm_of_files_perm {p q : Program} (hoptions : p.options = q.options)
    (hfiles : p.files.Perm q.files) (hone : p.HasLoneScopes) (m : Marker) (crateName : String)
    (stop : Cancellation) (hstop : stop = .never ∨ stop = .atOnce) :
    (p.extract m crateName stop).descriptors.Perm (q.extract m crateName stop).descriptors := by
  obtain ⟨us, o⟩ := p
  obtain ⟨vs, o'⟩ := q
  obtain rfl : o = o' := hoptions
  rw [descriptors_extract_eq_ite, descriptors_extract_eq_ite,
    mentions_eq_of_perm (p := ⟨us, o⟩) (q := ⟨vs, o⟩) hfiles]
  split
  case isFalse => exact List.Perm.refl _
  case isTrue =>
    rcases hstop with rfl | rfl
    · exact descriptors_extractAnyway_perm hfiles [] hone
    · have hnone : ∀ p : Program, (p.extractAnyway m crateName .atOnce).descriptors = [] :=
        fun p => Extraction.descriptors_pass _ 0 0
      rw [hnone, hnone]

/-- A file of a module that can be named from the crate root. -/
def unitOfModule (path : String) (names : List String) (text : String) : SourceUnit :=
  ⟨⟨path⟩, some ⟨names⟩, true, (Syntax.SourceFile.parse? text).getD ⟨[], []⟩⟩

/-- The enum of the module asks for the marker by a name that the other file exports. -/
theorem descriptors_perm_of_files_perm_swapped :
    let root := unitOfText "src/lib.rs" true "pub use a::b;\npub mod m;\n#[b] pub enum C { D }"
    let file := unitOfModule "src/m.rs" ["m"] "use crate::b;\n#[b(alias = \"e\")] pub enum F { G }"
    let p : Program := ⟨[root, file], .none⟩
    let q : Program := ⟨[file, root], .none⟩
    (p.files.Perm q.files ∧ p.HasLoneScopes) ∧
      (p.extract ⟨["a", "b"]⟩ "crate" .never).descriptors =
        [⟨"crate::C", none⟩, ⟨"crate::m::F", some "e"⟩] ∧
      (p.extract ⟨["a", "b"]⟩ "crate" .never).descriptors.Perm
        (q.extract ⟨["a", "b"]⟩ "crate" .never).descriptors := by
  intro root file p q
  have hoptions : p.options = q.options := by unfold p q; rfl
  have hfiles : p.files.Perm q.files := List.Perm.swap file root []
  obtain ⟨hone, hfound⟩ : p.HasLoneScopes ∧
      (p.extract ⟨["a", "b"]⟩ "crate" .never).descriptors =
        [⟨"crate::C", none⟩, ⟨"crate::m::F", some "e"⟩] := by
    decide +kernel
  exact ⟨⟨hfiles, hone⟩, hfound,
    descriptors_perm_of_files_perm hoptions hfiles hone ⟨["a", "b"]⟩ "crate" .never (.inl rfl)⟩

end Program

end EnumCatalog
