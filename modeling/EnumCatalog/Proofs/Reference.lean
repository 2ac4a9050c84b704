import EnumCatalog.Proofs.Delivery
import EnumCatalog.Proofs.WrittenPaths

/-!
# The search for references

Before candidates are examined the program is searched for the name of the marker's crate, and if no
path starts with it nothing is examined at all. The search takes paths as they are written, while
resolution takes names without raw marks and drops what leads to a module of this crate. So the two
agree only where the crate is named as the search expects it (`Program.NamesPlainly`): then the
search never hides a tagged enum (`extractAnyway_eq`). A raw name alone is enough to hide one
(`not_mentions_rawName`).

Whatever a path is resolved to, its first name stands in the path itself or in an import
(`Scopes.offers_of_mem_resolveWithin`), so it has been written in a path of the program.
-/

set_option autoImplicit false

namespace EnumCatalog

open Syntax (Item)
open Scopes (isRelative)

/-! ## 1. Where the names come from -/

namespace Scopes

variable {ss : Scopes} {x : String} {q ns : List String}

/-- A name may be that of a crate, and it stands among these names or in an import. -/
def Offers (ss : Scopes) (x : String) (ns : List String) : Prop :=
  isRelative [x] = false ∧ (x ∈ ns ∨ ∃ s ∈ ss.list, ∃ i ∈ s.imports, x ∈ i.path)

theorem Offers.mono {ms : List String} (h : ss.Offers x ns) (hsub : ns ⊆ ms) : ss.Offers x ms :=
  ⟨h.1, h.2.imp_left fun hx => hsub hx⟩

/-- A name that is offered by an import's path and others is offered by the others. -/
theorem Offers.of_import {s : Scope} {i : Import} (h : ss.Offers x (i.path ++ ns))
    (hs : s ∈ ss.list) (hi : i ∈ s.imports) : ss.Offers x ns := by
  obtain ⟨hrelative, hx | himport⟩ := h
  · rcases List.mem_append.mp hx with hx | hx
    · exact ⟨hrelative, .inr ⟨s, hs, i, hi, hx⟩⟩
    · exact ⟨hrelative, .inl hx⟩
  · exact ⟨hrelative, .inr himport⟩

theorem exists_import_of_targetOf? {id : ScopeId} {name : String} {target : List String}
    (h : ss.targetOf? id name = some target) :
    ∃ s ∈ ss.list, ∃ i ∈ s.imports, i.path = target := by
  obtain ⟨s, hs, htarget⟩ := Option.bind_eq_some_iff.mp h
  obtain ⟨i, hi, hname⟩ := List.mem_filterMap.mp (List.mem_of_getLast? htarget)
  refine ⟨s, List.mem_of_getElem? hs, i, hi, ?_⟩
  cases i with
  | glob source => cases hname
  | binding n t =>
    rw [Imports.targetIn] at hname
    split at hname
    · exact Option.some.inj hname
    · cases hname

theorem exists_import_of_mem_globsOf {id : ScopeId} {source : List String}
    (h : source ∈ ss.globsOf id) : ∃ s ∈ ss.list, ∃ i ∈ s.imports, i.path = source := by
  unfold globsOf at h
  cases hs : ss.get? id with
  | none =>
    rw [hs] at h
    cases h
  | some s =>
    rw [hs] at h
    obtain ⟨i, hi, hsource⟩ := List.mem_filterMap.mp
      (show source ∈ s.imports.filterMap Imports.globSource from h)
    refine ⟨s, List.mem_of_getElem? hs, i, hi, ?_⟩
    cases i with
    | glob source' => exact Option.some.inj hsource
    | binding n t => cases hsource

/-- The first name of what a path is resolved to stands in the path or in an import. -/
theorem offers_of_mem_resolveWithin (n : Nat) (id : ScopeId) (ns : List String)
    (h : x :: q ∈ ss.resolveWithin n id ns) : ss.Offers x ns := by
  induction n generalizing id ns with
  | zero =>
    rw [resolveWithin] at h
    cases h
  | succ n ih =>
    cases ns with
    | nil =>
      rw [resolveWithin] at h
      · cases h
      · exact Nat.succ_ne_zero n
    | cons first rest =>
      have hrest : rest ⊆ first :: rest := List.subset_cons_self first rest
      have follow : ∀ path, x :: q ∈ (if isRelative path then resolveWithin ss n id path
          else [path]) → ss.Offers x path := by
        intro path hpath
        split at hpath
        · exact ih id path hpath
        · next hrelative =>
          obtain rfl := List.mem_singleton.mp hpath
          exact ⟨eq_false_of_ne_true hrelative, .inl List.mem_cons_self⟩
      -- A step either drops the first name or puts an import in its place; the last one keeps it.
      simp only [resolveWithin] at h
      split at h
      · split at h
        · next root _ => exact (ih root rest h).mono hrest
        · cases h
      split at h
      · exact (ih id rest h).mono hrest
      split at h
      · split at h
        · next parent _ => exact (ih parent rest h).mono hrest
        · cases h
      split at h
      · next target htarget =>
        obtain ⟨s, hs, i, hi, rfl⟩ := exists_import_of_targetOf? htarget
        exact ((follow _ h).of_import hs hi).mono hrest
      split at h
      · next child _ => exact (ih child rest h).mono hrest
      rcases List.mem_append.mp h with h | h
      · obtain ⟨source, hsource, h⟩ := List.mem_flatMap.mp h
        obtain ⟨s, hs, i, hi, rfl⟩ := exists_import_of_mem_globsOf hsource
        exact (follow _ h).of_import hs hi
      · obtain ⟨rfl, rfl⟩ := List.cons.inj (List.mem_singleton.mp h)
        refine ⟨?_, .inl List.mem_cons_self⟩
        simp_all [isRelative]

end Scopes

/-! ## 2. The search -/

namespace Program

variable {p : Program} {m : Marker} {x : String}

/-- Where a path of the program names the crate at all, it starts with its name as it is given: not
behind another name, and without a raw mark unless one is given. -/
def NamesPlainly (p : Program) (x : String) : Prop :=
  ∀ w ∈ p.paths, x ∈ w.map (·.name) → w.head?.map (·.text) = some x

instance (p : Program) (x : String) : Decidable (p.NamesPlainly x) :=
  inferInstanceAs (Decidable (∀ w ∈ p.paths, _))

/-- The search sees where each path of the program starts. -/
theorem mentions_of_mem_paths {w : List Ident} (hw : w ∈ p.paths) {i : Ident}
    (hi : w.head? = some i) : p.mentions i.text = true := by
  obtain ⟨u, hu, hpath⟩ := List.mem_flatMap.mp hw
  have hitems := Item.mem_mentions_of_mem_pathsAll u.source.items hpath hi
  refine List.any_eq_true.mpr ⟨u, hu, List.contains_iff_mem.mpr ?_⟩
  rw [Syntax.SourceFile.mentions, Syntax.Fragment.mentions_append]
  exact List.mem_append_right _ hitems

theorem NamesPlainly.mentions (hx : p.NamesPlainly x) {w : List Ident} (hw : w ∈ p.paths)
    (hmem : x ∈ w.map (·.name)) : p.mentions x = true := by
  obtain ⟨i, hi, rfl⟩ := Option.map_eq_some_iff.mp (hx w hw hmem)
  exact mentions_of_mem_paths hw hi

/-- The paths of a candidate's attributes are among those of the program. -/
theorem idents_mem_paths {c : Candidate} (hc : c ∈ p.declarations.candidates)
    {a : Syntax.Attribute} (ha : a ∈ c.enum.attrs) : a.name.idents ∈ p.paths := by
  obtain ⟨u, hu, s, hfill, -⟩ := Declarations.exists_site_of_mem_ofUnits hc
  refine List.mem_flatMap.mpr ⟨u, hu, hfill ▸ Item.paths_subset_fill s (.enum c.enum) ?_⟩
  rw [Item.paths]
  exact List.mem_map_of_mem ha

/-- The name of the marker's crate is written in a path of the program if a candidate is tagged. -/
theorem exists_path_of_tagged {c : Candidate} (hc : c ∈ p.declarations.candidates)
    (hm : m.segments ≠ []) (ht : c.Tagged p.scopes m) :
    ∃ w ∈ p.paths, m.crateName ∈ w.map (·.name) := by
  obtain ⟨a, ha, hresolve⟩ := ht
  obtain ⟨x, q, hsegments⟩ := List.exists_cons_of_ne_nil hm
  have hname : m.crateName = x := by rw [Marker.crateName, hsegments, List.headD_cons]
  have hnames : a.name.idents.map (·.name) = a.name.names := a.name.map_name_idents
  have hpath := idents_mem_paths hc ha
  rw [hsegments, Scopes.resolve] at hresolve
  rw [hname]
  split at hresolve
  -- Behind a leading double colon the path is taken as it is.
  · refine ⟨_, hpath, ?_⟩
    rw [hnames, ← List.mem_singleton.mp hresolve]
    exact List.mem_cons_self
  · obtain ⟨hrelative, hx | ⟨s, hs, i, hi, hx⟩⟩ := Scopes.offers_of_mem_resolveWithin _ _ _ hresolve
    · exact ⟨_, hpath, hnames ▸ hx⟩
    · obtain ⟨w, hw, hwritten⟩ := Declarations.exists_isWrittenIn_ofUnits hs hi
      exact ⟨w, hw, hwritten x hx hrelative⟩

/-- Extraction as it would be without the search for the name of the marker's crate. -/
def extractAnyway (p : Program) (m : Marker) (crateName : String) (stop : Cancellation) :
    Extraction :=
  let live := p.liveCandidates
  let opening := .found live.length p.files.length ::
    p.disabledCandidates.map fun c => .skipped c.name c.file .notCompiled
  (Extraction.pass stop (Extraction.examine p.scopes m crateName) 0 live).withNotes opening

/-- Nothing is found where no candidate is tagged. -/
theorem descriptors_pass_of_not_tagged {ss : Scopes} {crateName : String} {cs : List Candidate}
    (h : ∀ c ∈ cs, ¬ c.Tagged ss m) (stop : Cancellation) (found : Nat) :
    (Extraction.pass stop (Extraction.examine ss m crateName) found cs).descriptors = [] := by
  have hnone : cs.filterMap (fun c => (Extraction.examine ss m crateName c).2) = [] := by
    rw [List.filterMap_eq_nil_iff]
    intro c hc
    rw [Option.eq_none_iff_forall_ne_some]
    intro d hd
    exact h c hc (Candidate.describe_eq_some_iff.mp hd).1
  obtain ⟨_ | k⟩ := stop
  · exact (Extraction.descriptors_pass_never _ found cs).trans hnone
  · rw [Extraction.descriptors_pass, hnone, List.take_nil]

/-- Where the marker's crate is named plainly, the search hides no tagged enum, and without it the
same enums would be found. -/
theorem extractAnyway_eq (p : Program) (m : Marker) (crateName : String) (hm : m.segments ≠ [])
    (hx : p.NamesPlainly m.crateName) :
    (∀ c ∈ p.liveCandidates, c.Tagged p.scopes m → p.mentions m.crateName = true) ∧
      ∀ stop, (p.extractAnyway m crateName stop).descriptors =
        (p.extract m crateName stop).descriptors := by
  have hmentions : ∀ c ∈ p.liveCandidates, c.Tagged p.scopes m →
      p.mentions m.crateName = true := by
    intro c hc ht
    obtain ⟨w, hw, hmem⟩ := exists_path_of_tagged (p.liveCandidates_sublist.subset hc) hm ht
    exact hx.mentions hw hmem
  refine ⟨hmentions, fun stop => ?_⟩
  unfold extract
  by_cases h : p.mentions m.crateName = true
  · rw [if_pos h]
    rfl
  · rw [if_neg h]
    exact descriptors_pass_of_not_tagged (fun c hc ht => h (hmentions c hc ht)) stop 0

/-- An enum that is tagged by way of an import. -/
theorem extractAnyway_eq_ofRootText :
    let p := ofRootText .unknown "use a::b;\n#[b] pub enum C { D }"
    (∃ c ∈ p.liveCandidates, c.Tagged p.scopes ⟨["a", "b"]⟩) ∧ p.NamesPlainly "a" ∧
      p.mentions "a" = true ∧
      (p.extractAnyway ⟨["a", "b"]⟩ "crate" .never).descriptors = [⟨"crate::C", none⟩] := by
  intro p
  obtain ⟨hc, hx, hfound⟩ : (∃ c ∈ p.liveCandidates, c.Tagged p.scopes ⟨["a", "b"]⟩) ∧
      p.NamesPlainly "a" ∧
      (p.extract ⟨["a", "b"]⟩ "crate" .never).descriptors = [⟨"crate::C", none⟩] := by
    decide +kernel
  obtain ⟨hmentions, hdescriptors⟩ :=
    extractAnyway_eq p ⟨["a", "b"]⟩ "crate" (List.cons_ne_nil _ _) hx
  obtain ⟨c, hlive, ht⟩ := id hc
  exact ⟨hc, hx, hmentions c hlive ht, (hdescriptors .never).trans hfound⟩

/-- A crate that is named with a raw mark is not found, although resolution drops the mark. -/
theorem not_mentions_rawName :
    let p := ofRootText .unknown "#[r#a::b] pub enum C { D }"
    (∃ c ∈ p.liveCandidates, c.Acceptable p.scopes ⟨["a", "b"]⟩ .root) ∧
      p.mentions "a" = false ∧
      (p.extractAnyway ⟨["a", "b"]⟩ "crate" .never).descriptors = [⟨"crate::C", none⟩] ∧
      (p.extract ⟨["a", "b"]⟩ "crate" .never).descriptors = [] := by
  decide +kernel

end Program

end EnumCatalog
