import EnumCatalog.ModuleTree
import EnumCatalog.Proofs.DiskFiles

/-!
# Runs of the search for files

The search for the files of a crate looks at one pending module after the other. What it does with
each is a *visit*: it reads a file that has not been reached, or it passes on (`ModuleTree.Visit`).
Whether a list of visits is what a search comes to is said step by step, without a bound on the
number of rounds (`ModuleTree.Searches`). The bound that the search is given is never used up, since
every round reaches another file of the disk, so the files found are those of the visits
(`tree_ofRoot`).

Every module that is declared is visited, and nothing else but the root (`Searches.perm`). A search
on another disk makes the same visits for as long as what it visits looks the same there
(`Searches.transfer`).
-/

set_option autoImplicit false

namespace EnumCatalog

namespace ModuleTree

/-! ## 1. Visits -/

/-- A pending module that the search looks at, and the file that is read, if one is. -/
structure Visit where
  pending : Pending
  file? : Option TreeFile

/-- The modules that a file declares and that are still to be read, the last one first. -/
def declaredBy (d : Disk) (o : Cfg.Options) (p : Pending) (f : TreeFile) : List Pending :=
  (pendingOf (ModulePlace.declaredIn d o (.ofPending p) f.source.items)).reverse

/-- The modules that are pending because of a visit. -/
def Visit.declares (d : Disk) (o : Cfg.Options) (v : Visit) : List Pending :=
  (v.file?.map (declaredBy d o v.pending)).getD []

/-- The files that visits read. -/
def filesOf (visits : List Visit) : ModuleTree := visits.filterMap (·.file?)

theorem mem_append_cons_of_mem {α : Type} {a b : α} {as bs : List α} (h : b ∈ as ++ bs) :
    b ∈ as ++ a :: bs :=
  ((List.Sublist.refl as).append (List.sublist_cons_self a bs)).subset h

/-- What a search comes to, given the locations reached and the modules pending. -/
inductive Searches (d : Disk) (o : Cfg.Options) :
    List Location → List Pending → List Visit → Prop where
  | done (reached : List Location) : Searches d o reached [] []
  /-- The file cannot be read, or has been reached. -/
  | pass {reached : List Location} {p : Pending} {rest : List Pending} {visits : List Visit}
      (h : ∀ f, load? d p = some f → f.location ∈ reached) (hs : Searches d o reached rest visits) :
      Searches d o reached (p :: rest) (⟨p, none⟩ :: visits)
  /-- The file is read, and then the modules that it declares come first. -/
  | read {reached : List Location} {p : Pending} {rest : List Pending} {visits : List Visit}
      {f : TreeFile} (hf : load? d p = some f) (hnew : f.location ∉ reached)
      (hs : Searches d o (f.location :: reached) (declaredBy d o p f ++ rest) visits) :
      Searches d o reached (p :: rest) (⟨p, some f⟩ :: visits)

theorem load?_eq_some_iff {d : Disk} {p : Pending} {f : TreeFile} :
    load? d p = some f ↔ d.canonical? p.file = some f.location ∧
      (d.readText? p.file).bind Syntax.SourceFile.parse? = some f.source ∧
        f.module = p.module ∧ f.exported = p.exported := by
  unfold load?
  cases d.canonical? p.file with
  | none => simp
  | some l =>
    cases ht : d.readText? p.file with
    | none => simp
    | some t =>
      cases hs : Syntax.SourceFile.parse? t with
      | none => simp [hs]
      | some s =>
        obtain ⟨location, module, exported, source⟩ := f
        simp only [hs, Option.bind_eq_bind, Option.bind_some, Option.pure_def, Option.some.injEq,
          TreeFile.mk.injEq]
        constructor <;> rintro ⟨rfl, rfl, rfl, rfl⟩ <;> exact ⟨rfl, rfl, rfl, rfl⟩

variable {d d' : Disk} {o : Cfg.Options} {reached : List Location} {pending : List Pending}
  {visits : List Visit}

/-- A search comes to one list of visits only. -/
theorem Searches.unique (h : Searches d o reached pending visits) {visits' : List Visit}
    (h' : Searches d o reached pending visits') : visits = visits' := by
  induction h generalizing visits' with
  | done reached => cases h'; rfl
  | pass hpass _ ih =>
    cases h' with
    | pass _ hs' => rw [ih hs']
    | read hf hnew _ => exact absurd (hpass _ hf) hnew
  | read hf hnew _ ih =>
    cases h' with
    | pass hpass _ => exact absurd (hpass _ hf) hnew
    | read hf' _ hs' =>
      obtain rfl := Option.some.inj (hf.symm.trans hf')
      rw [ih hs']

/-! ## 2. The bound on the rounds -/

/-- The locations of the files of a disk. -/
def fileLocations (d : Disk) : List Location := (Disk.locatedIn ⟨""⟩ [] d.entries).map Prod.snd

theorem length_fileLocations (d : Disk) : (fileLocations d).length = fileCount d := by
  rw [fileLocations, fileCount, ← Disk.map_fst_locatedIn _ [], List.length_map, List.length_map]

/-- What is read is a text on the disk. -/
theorem exists_text_of_load? {p : Pending} {f : TreeFile} (h : load? d p = some f) :
    ∃ t, d.nodeAt? f.location = some (.file (.text t)) ∧
      Syntax.SourceFile.parse? t = some f.source := by
  obtain ⟨hl, hparse, -, -⟩ := load?_eq_some_iff.mp h
  obtain ⟨t, ht, hsource⟩ := Option.bind_eq_some_iff.mp hparse
  refine ⟨t, ?_, hsource⟩
  rw [Disk.readText?, Disk.get?, hl, Option.bind_eq_bind, Option.bind_some] at ht
  split at ht
  · next heq => rw [heq, Option.some.inj ht]
  · cases ht

theorem exists_nodeAt?_of_load? {p : Pending} {f : TreeFile} (h : load? d p = some f) :
    ∃ c, d.nodeAt? f.location = some (.file c) := by
  obtain ⟨t, ht, -⟩ := exists_text_of_load? h
  exact ⟨.text t, ht⟩

theorem mem_fileLocations_of_nodeAt? {l : Location} {c : Content}
    (h : d.nodeAt? l = some (.file c)) : l ∈ fileLocations d := by
  rcases l with _ | ⟨name, s⟩
  · cases h
  · exact Disk.mem_locatedIn_of_nodeAt? ⟨""⟩ [] h

theorem location_mem_fileLocations {p : Pending} {f : TreeFile} (h : load? d p = some f) :
    f.location ∈ fileLocations d := by
  obtain ⟨c, hn⟩ := exists_nodeAt?_of_load? h
  exact mem_fileLocations_of_nodeAt? hn

/-- What is read from a file does not depend on the name that leads to it. -/
theorem load?_of_canonical? {p q : Pending} {f : TreeFile} (h : load? d p = some f)
    (hq : d.canonical? q.file = some f.location) :
    load? d q = some ⟨f.location, q.module, q.exported, f.source⟩ := by
  obtain ⟨hl, hparse, -, -⟩ := load?_eq_some_iff.mp h
  refine load?_eq_some_iff.mpr ⟨hq, ?_, rfl, rfl⟩
  rw [Disk.readText?_eq, hl] at hparse
  rw [Disk.readText?_eq, hq]
  exact hparse

/-- As many rounds as there are files left, and one, are enough. -/
theorem exists_searches (n : Nat) (hnodup : reached.Nodup) (hfiles : reached ⊆ fileLocations d)
    (hn : fileCount d < n + reached.length) (pending : List Pending) :
    ∃ visits, Searches d o reached pending visits ∧
      (searchWithin d o n reached pending).tree = filesOf visits := by
  induction n generalizing reached pending with
  | zero =>
    have hle := hnodup.length_le_of_subset hfiles
    rw [length_fileLocations] at hle
    omega
  | succ n ih =>
    rw [searchWithin]
    induction pending with
    | nil => exact ⟨[], .done reached, rfl⟩
    | cons p rest ihrest =>
      -- Passing on stays within the round, and reading takes the next one.
      obtain ⟨visits, hs, htree⟩ := ihrest
      rw [round]
      split
      case isTrue hagain =>
        refine ⟨⟨p, none⟩ :: visits, .pass (fun f hf => ?_) hs, htree⟩
        rw [(load?_eq_some_iff.mp hf).1, Option.any_some, List.contains_iff_mem] at hagain
        exact hagain
      case isFalse hnew =>
      cases hf : load? d p with
      | none =>
        refine ⟨⟨p, none⟩ :: visits, .pass (fun f h => ?_) hs, htree⟩
        rw [hf] at h
        cases h
      | some f =>
        have hloc : f.location ∉ reached := by
          intro hmem
          rw [(load?_eq_some_iff.mp hf).1, Option.any_some, List.contains_iff_mem] at hnew
          exact hnew hmem
        have hnodup' : (f.location :: reached).Nodup := List.nodup_cons.mpr ⟨hloc, hnodup⟩
        obtain ⟨next, hnext, htree'⟩ := ih hnodup'
          (List.cons_subset.mpr ⟨location_mem_fileLocations hf, hfiles⟩)
          (by rw [List.length_cons]; omega) (declaredBy d o p f ++ rest)
        exact ⟨⟨p, some f⟩ :: next, .read hf hloc hnext, congrArg (f :: ·) htree'⟩

theorem exists_searches_root (d : Disk) (o : Cfg.Options) (root : FsPath) :
    ∃ visits, Searches d o [] (rootIn? d root).toList visits := by
  obtain ⟨visits, hs, -⟩ := exists_searches (d := d) (o := o) (fileCount d + 1) List.nodup_nil
    (List.nil_subset _) (by rw [List.length_nil]; omega) (rootIn? d root).toList
  exact ⟨visits, hs⟩

/-- The files of a crate are those that the visits of the search read. -/
theorem tree_ofRoot {root : FsPath} (h : Searches d o [] (rootIn? d root).toList visits) :
    (ofRoot d o root).tree = filesOf visits := by
  obtain ⟨visits', hs, htree⟩ := exists_searches (d := d) (o := o) (fileCount d + 1) List.nodup_nil
    (List.nil_subset _) (by rw [List.length_nil]; omega) (rootIn? d root).toList
  rw [h.unique hs]
  exact htree

/-! ## 3. What is visited -/

/-- Every module that is declared is visited, and nothing else but what was pending. -/
theorem Searches.perm (h : Searches d o reached pending visits) :
    (visits.map (·.pending)).Perm (pending ++ visits.flatMap (·.declares d o)) := by
  induction h with
  | done reached => exact List.Perm.refl _
  | @pass _ p _ _ _ _ ih => exact ih.cons p
  | @read _ p rest visits f _ _ _ ih =>
    refine (ih.cons p).trans (List.Perm.cons p ?_)
    show (declaredBy d o p f ++ rest ++ _).Perm (rest ++ (declaredBy d o p f ++ _))
    rw [List.append_assoc]
    exact (List.perm_append_comm_assoc _ _ _)

/-- What is pending is visited in this order. -/
theorem Searches.sublist (h : Searches d o reached pending visits) :
    pending.Sublist (visits.map (·.pending)) := by
  induction h with
  | done reached => exact List.Sublist.refl _
  | @pass _ p _ _ _ _ ih => exact ih.cons_cons p
  | @read _ p _ _ _ _ _ _ ih => exact ((List.sublist_append_right _ _).trans ih).cons_cons p

/-- The last visits of a search are a search. -/
theorem Searches.of_append {before tail : List Visit}
    (h : Searches d o reached pending (before ++ tail)) :
    ∃ reached' pending', Searches d o reached' pending' tail := by
  induction before generalizing reached pending with
  | nil => exact ⟨reached, pending, h⟩
  | cons v before ih =>
    cases h with
    | pass _ hs => exact ih hs
    | read _ _ hs => exact ih hs

/-- A file that is read is that of the module visited, and it has not been reached. -/
theorem Searches.of_read (h : Searches d o reached pending visits) {v : Visit} (hv : v ∈ visits)
    {f : TreeFile} (hf : v.file? = some f) : load? d v.pending = some f ∧ f.location ∉ reached := by
  induction h with
  | done reached => cases hv
  | pass _ _ ih =>
    rcases List.mem_cons.mp hv with rfl | hv
    · cases hf
    · exact ih hv
  | read hload hnew _ ih =>
    rcases List.mem_cons.mp hv with rfl | hv
    · obtain rfl := Option.some.inj hf
      exact ⟨hload, hnew⟩
    · obtain ⟨h, hnot⟩ := ih hv
      exact ⟨h, fun hmem => hnot (List.mem_cons_of_mem _ hmem)⟩

/-- A file that could be read has been reached or is read. -/
theorem Searches.exists_read (h : Searches d o reached pending visits) {v : Visit}
    (hv : v ∈ visits) {f : TreeFile} (hf : load? d v.pending = some f) :
    f.location ∈ reached ∨ ∃ w ∈ visits, ∃ g, w.file? = some g ∧ g.location = f.location := by
  induction h with
  | done reached => cases hv
  | pass hpass _ ih =>
    rcases List.mem_cons.mp hv with rfl | hv
    · exact Or.inl (hpass f hf)
    · exact (ih hv).imp_right fun ⟨w, hw, g⟩ => ⟨w, List.mem_cons_of_mem _ hw, g⟩
  | read hload hnew _ ih =>
    rcases List.mem_cons.mp hv with rfl | hv
    · exact Or.inr ⟨_, List.mem_cons_self, _, rfl, congrArg (·.location)
        (Option.some.inj (hload.symm.trans hf))⟩
    · rcases ih hv with hmem | ⟨w, hw, g, hg⟩
      · rcases List.mem_cons.mp hmem with heq | hmem
        · exact Or.inr ⟨_, List.mem_cons_self, _, rfl, heq.symm⟩
        · exact Or.inl hmem
      · exact Or.inr ⟨w, List.mem_cons_of_mem _ hw, g, hg⟩

theorem Searches.nodup (h : Searches d o reached pending visits) :
    ((filesOf visits).map (·.location)).Nodup := by
  induction h with
  | done reached => exact List.nodup_nil
  | pass _ _ ih => exact ih
  | @read _ p rest visits f _ _ hs ih =>
    refine List.nodup_cons.mpr ⟨fun hmem => ?_, ih⟩
    obtain ⟨g, hg, hloc⟩ := List.mem_map.mp hmem
    obtain ⟨v, hv, hfile⟩ := List.mem_filterMap.mp hg
    exact (hs.of_read hv hfile).2 (hloc ▸ List.mem_cons_self)

theorem at?_of_mem {t : ModuleTree} (h : (t.map (·.location)).Nodup) {f : TreeFile}
    (hf : f ∈ t) : t.at? f.location = some f := by
  cases hat : t.at? f.location with
  | none =>
    have hne := List.find?_eq_none.mp hat f hf
    simp at hne
  | some g =>
    have hloc : g.location = f.location := by simpa using List.find?_some hat
    rw [List.inj_on_of_nodup_map h (List.mem_of_find?_eq_some hat) hf hloc]

/-- No file is kept twice. -/
theorem nodup_ofRoot (d : Disk) (o : Cfg.Options) (root : FsPath) :
    ((ofRoot d o root).tree.map (·.location)).Nodup := by
  obtain ⟨visits, hs⟩ := exists_searches_root d o root
  rw [tree_ofRoot hs]
  exact hs.nodup

/-- A file of the tree has been read on a visit. -/
theorem Searches.exists_visit_of_mem {root : FsPath}
    (hs : Searches d o [] (rootIn? d root).toList visits) {f : TreeFile}
    (hf : f ∈ (ofRoot d o root).tree) : ∃ v ∈ visits, load? d v.pending = some f := by
  rw [tree_ofRoot hs] at hf
  obtain ⟨v, hv, hfile⟩ := List.mem_filterMap.mp hf
  exact ⟨v, hv, (hs.of_read hv hfile).1⟩

/-! ## 4. The same visits on another disk -/

/-- A visit looks the same on another disk, the file at a location left aside. -/
structure Visit.SameOn (d d' : Disk) (o : Cfg.Options) (aside : Location) (v : Visit) : Prop where
  /-- A file that can be read there can be read here as well. -/
  pass : ∀ f', load? d' v.pending = some f' →
    ∃ f, load? d v.pending = some f ∧ f.location = f'.location ∧ f.location ≠ aside
  /-- A file that is read here can be read there, and it declares the same modules. -/
  read : ∀ f, v.file? = some f → load? d' v.pending = some f ∧
    declaredBy d' o v.pending f = declaredBy d o v.pending f

/-- A search on another disk makes the same visits for as long as they look the same there. What is
pending at the end may differ if none of these visits comes to it. -/
theorem Searches.transfer {aside : Location} {above below : List Pending} {before tail : List Visit}
    {reached' : List Location} (below' : List Pending)
    (h : Searches d o reached (above ++ below) (before ++ tail))
    (hreached : ∀ l, l ≠ aside → (l ∈ reached' ↔ l ∈ reached))
    (hsame : ∀ v ∈ before, v.SameOn d d' o aside)
    (hbelow : ∀ v ∈ before, below.head? ≠ some v.pending) :
    ∃ next next' rest, Searches d o next (rest ++ below) tail ∧
      (∀ l, l ≠ aside → (l ∈ next' ↔ l ∈ next)) ∧
      ∀ tail', Searches d' o next' (rest ++ below') tail' →
        Searches d' o reached' (above ++ below') (before ++ tail') := by
  induction before generalizing reached reached' above with
  | nil => exact ⟨reached, reached', above, h, hreached, fun _ h' => h'⟩
  | cons v before ih =>
    rw [List.forall_mem_cons] at hsame hbelow
    -- The visit comes to what is above, since it does not come to the first that is below.
    obtain ⟨p, above, rfl⟩ : ∃ p above', above = p :: above' := by
      rcases above with _ | ⟨p, above⟩
      · rw [List.nil_append, List.cons_append] at h
        cases h <;> exact absurd rfl hbelow.1
      · exact ⟨p, above, rfl⟩
    rw [List.cons_append, List.cons_append] at h
    cases h with
    | pass hpass hs =>
      obtain ⟨next, next', rest, hnext, hiff, hrest⟩ := ih hs hreached hsame.2 hbelow.2
      refine ⟨next, next', rest, hnext, hiff, fun tail' ht => ?_⟩
      refine .pass (fun f' hf' => ?_) (hrest tail' ht)
      obtain ⟨f, hf, hloc, haside⟩ := hsame.1.pass f' hf'
      rw [← hloc]
      exact (hreached _ haside).mpr (hpass f hf)
    | @read _ _ _ _ f hf hnew hs =>
      obtain ⟨hf', hdeclared⟩ := hsame.1.read f rfl
      obtain ⟨g, hg, -, haside⟩ := hsame.1.pass f hf'
      obtain rfl := Option.some.inj (hf.symm.trans hg)
      rw [← List.append_assoc] at hs
      have hboth : ∀ l, l ≠ aside → (l ∈ f.location :: reached' ↔ l ∈ f.location :: reached) := by
        intro l hl
        rw [List.mem_cons, List.mem_cons, hreached l hl]
      obtain ⟨next, next', rest, hnext, hiff, hrest⟩ := ih hs hboth hsame.2 hbelow.2
      refine ⟨next, next', rest, hnext, hiff, fun tail' ht => ?_⟩
      refine .read hf' (fun hmem => hnew ((hreached _ haside).mp hmem)) ?_
      rw [hdeclared]
      show Searches d' o _ (declaredBy d o p f ++ (above ++ below')) (before ++ tail')
      rw [← List.append_assoc]
      exact hrest tail' ht

end ModuleTree

end EnumCatalog
