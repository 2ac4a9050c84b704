import EnumCatalog.Proofs.Declaring
import EnumCatalog.Proofs.Search

/-!
# Modules with a file of their own

A module without a body is declared at a site of a file that the search for the files of a crate
reads, and it leads to a file of its own (`FileModule`). If no other declaration leads to that file,
the search reads it exactly once, some time after the file with the declaration
(`FileModule.exists_course`).

Then the body can be moved to where the module is declared: the file with the declaration is written
anew, and the file of the module is removed (`FileModule.Inlined`). The search on the disk that
comes of it makes the same visits, but for the one that has read the removed file: what that file
declared is pending from the beginning, at the same place in the order
(`FileModule.Inlined.searches`).
-/

set_option autoImplicit false

namespace EnumCatalog

open ModuleTree
open Syntax (Item ModuleHead SourceFile)

/-- A module whose file the search for the files of a crate comes to, and where it is declared. -/
structure FileModule (d : Disk) (o : Cfg.Options) (root : FsPath) where
  /-- The run of the search. -/
  visits : List Visit
  searches : Searches d o [] (rootIn? d root).toList visits
  /-- The module in whose file it is declared, and that file. -/
  outer : Pending
  outerFile : TreeFile
  read_outer : ⟨outer, some outerFile⟩ ∈ visits
  /-- The declaration. -/
  site : Site
  head : ModuleHead
  items_eq : outerFile.source.items = site.fill [.fileModule head]
  /-- It is compiled, and so are the modules in braces around it. -/
  enabled : ∀ h ∈ site.heads ++ [head], ModulePlace.isEnabled o h = true
  /-- The file is found by the name of the module. -/
  no_path : head.pathValue? = none
  /-- The file of the module. -/
  file : TreeFile
  load_file :
    load? d (((ModulePlace.ofPending outer).descend site.heads).pendingOf d head) = some file
  /-- No other declaration leads to it. -/
  once : visits.countP (fun v => d.canonical? v.pending.file == some file.location) ≤ 1

namespace FileModule

variable {d d' : Disk} {o : Cfg.Options} {root : FsPath} (t : FileModule d o root)

/-- Where the module is declared. -/
def place : ModulePlace := (ModulePlace.ofPending t.outer).descend t.site.heads

/-- The module, when its file is still to be read. -/
def pending : Pending := t.place.pendingOf d t.head

/-- Whether a pending module leads to the file. -/
def Leads (p : Pending) : Prop := d.canonical? p.file = some t.file.location

theorem leads_pending : t.Leads t.pending := (load?_eq_some_iff.mp t.load_file).1

/-- What the file with the declaration declares before it. -/
def before : List Pending :=
  pendingOf (ModulePlace.declaredBefore d o (.ofPending t.outer) t.site)

/-- What the file with the declaration declares after it. -/
def after : List Pending :=
  pendingOf (ModulePlace.declaredAfter d o (.ofPending t.outer) t.site)

/-- The file with the declaration declares the module, among others. -/
theorem declaredBy_outer :
    declaredBy d o t.outer t.outerFile = t.after.reverse ++ t.pending :: t.before.reverse := by
  have hheads : ∀ h ∈ t.site.heads, ModulePlace.isEnabled o h = true :=
    fun h hh => t.enabled h (List.mem_append_left _ hh)
  have hhead : ModulePlace.isEnabled o t.head = true :=
    t.enabled _ (List.mem_append_right _ (List.mem_singleton_self _))
  rw [declaredBy, t.items_eq, ModulePlace.declaredIn_fill _ hheads,
    ModulePlace.declaredIn_singleton, ModulePlace.declared, if_pos hhead, pendingOf_append, pendingOf_append, List.append_assoc,
    List.reverse_append, List.reverse_append, List.append_assoc]
  rfl

/-- How the search goes: it comes to the file with the declaration, later on to the file of the
module, and to that file at no other time. -/
structure Course (first between last : List Visit) : Prop where
  visits_eq : t.visits =
    first ++ ⟨t.outer, some t.outerFile⟩ :: (between ++ ⟨t.pending, some t.file⟩ :: last)
  not_leads : ∀ v ∈ first ++ between ++ last, ¬ t.Leads v.pending
  not_leads_outer : ¬ t.Leads t.outer
  not_leads_declares : ∀ v ∈ first ++ between ++ last, ∀ q ∈ v.declares d o, ¬ t.Leads q
  not_leads_inner : ∀ q ∈ declaredBy d o t.pending t.file, ¬ t.Leads q
  not_leads_around : ∀ q ∈ t.before ++ t.after, ¬ t.Leads q
  not_leads_root : ∀ q ∈ rootIn? d root, ¬ t.Leads q

/-- The same as a test. -/
def leads (p : Pending) : Bool := d.canonical? p.file == some t.file.location

theorem leads_eq_true_iff {p : Pending} : t.leads p = true ↔ t.Leads p := beq_iff_eq

theorem countP_leads_le : (t.visits.map (·.pending)).countP t.leads ≤ 1 := by
  rw [List.countP_map]
  exact t.once

theorem not_leads_of_countP {l : List Pending} (h : l.countP t.leads = 0) :
    ∀ q ∈ l, ¬ t.Leads q :=
  fun q hq hlead => List.countP_eq_zero.mp h q hq (t.leads_eq_true_iff.mpr hlead)

/-- The one declaration that leads to the file is that of the module. -/
theorem not_leads_of_append {first rest : List Visit}
    (h : t.visits = first ++ ⟨t.outer, some t.outerFile⟩ :: rest) :
    (∀ v ∈ first ++ rest, ∀ q ∈ v.declares d o, ¬ t.Leads q) ∧
      (∀ q ∈ t.before ++ t.after, ¬ t.Leads q) ∧ ∀ q ∈ rootIn? d root, ¬ t.Leads q := by
  have hcount := t.countP_leads_le
  have houter : (Visit.mk t.outer (some t.outerFile)).declares d o =
      t.after.reverse ++ t.pending :: t.before.reverse := t.declaredBy_outer
  rw [t.searches.perm.countP_eq, h, List.flatMap_append, List.flatMap_cons, houter,
    List.countP_append, List.countP_append, List.countP_append, List.countP_append,
    List.countP_cons_of_pos (t.leads_eq_true_iff.mpr t.leads_pending), List.countP_reverse,
    List.countP_reverse] at hcount
  refine ⟨fun v hv q hq => ?_, fun q hq => ?_, fun q hq => ?_⟩
  · have hmem : q ∈ (first ++ rest).flatMap (·.declares d o) := List.mem_flatMap.mpr ⟨v, hv, hq⟩
    refine t.not_leads_of_countP ?_ q hmem
    rw [List.flatMap_append, List.countP_append]
    omega
  · refine t.not_leads_of_countP ?_ q hq
    rw [List.countP_append]
    omega
  · have hnone : (rootIn? d root).toList.countP t.leads = 0 := by omega
    exact t.not_leads_of_countP hnone q (Option.mem_toList.mpr hq)

/-- The module is visited after the file in which it is declared. -/
theorem exists_visit_pending {first rest : List Visit}
    (h : t.visits = first ++ ⟨t.outer, some t.outerFile⟩ :: rest) :
    ∃ between file? last, rest = between ++ ⟨t.pending, file?⟩ :: last := by
  obtain ⟨reached, pending, hs⟩ := (h ▸ t.searches).of_append
  cases hs with
  | read _ _ hrest =>
    rw [t.declaredBy_outer] at hrest
    obtain ⟨v, hv, hp⟩ := List.mem_map.mp (hrest.sublist.subset (List.mem_append_left _
      (List.mem_append_right t.after.reverse List.mem_cons_self)))
    obtain ⟨between, last, hsplit⟩ := List.append_of_mem hv
    exact ⟨between, v.file?, last, hp ▸ hsplit⟩

/-- The one visit that leads to the file is that of the module. -/
theorem not_leads_of_visits_eq {first between last : List Visit} {file? : Option TreeFile}
    (h : t.visits = first ++ ⟨t.outer, some t.outerFile⟩ ::
      (between ++ ⟨t.pending, file?⟩ :: last)) :
    ∀ v ∈ first ++ ⟨t.outer, some t.outerFile⟩ :: (between ++ last), ¬ t.Leads v.pending := by
  have hcount := t.countP_leads_le
  have hsplit : t.visits.Perm
      (⟨t.pending, file?⟩ :: (first ++ ⟨t.outer, some t.outerFile⟩ :: (between ++ last))) := by
    have hmiddle : (first ++ ⟨t.outer, some t.outerFile⟩ :: between ++
        ⟨t.pending, file?⟩ :: last).Perm
          (⟨t.pending, file?⟩ :: (first ++ ⟨t.outer, some t.outerFile⟩ :: between ++ last)) :=
      List.perm_middle
    rw [h]
    simpa using hmiddle
  rw [(hsplit.map _).countP_eq, List.map_cons,
    List.countP_cons_of_pos (t.leads_eq_true_iff.mpr t.leads_pending)] at hcount
  intro v hv
  refine t.not_leads_of_countP (Nat.le_zero.mp (Nat.le_of_succ_le_succ hcount)) v.pending ?_
  exact List.mem_map_of_mem (f := fun v : Visit => v.pending) hv

/-- The visit reads the file, since it can be read and no other visit leads to it. -/
theorem file?_eq_of_visits_eq {first between last : List Visit} {file? : Option TreeFile}
    (h : t.visits = first ++ ⟨t.outer, some t.outerFile⟩ ::
      (between ++ ⟨t.pending, file?⟩ :: last)) :
    file? = some t.file := by
  have hmem : ⟨t.pending, file?⟩ ∈ t.visits := by rw [h]; simp
  obtain hnil | ⟨w, hw, g, hg, hloc⟩ := t.searches.exists_read hmem t.load_file
  · cases hnil
  have hload := (t.searches.of_read hw hg).1
  have hlead : t.Leads w.pending := by rw [Leads, (load?_eq_some_iff.mp hload).1, hloc]
  have hself : w = ⟨t.pending, file?⟩ := by
    by_contra hne
    refine t.not_leads_of_visits_eq h w ?_ hlead
    rw [h] at hw
    simp only [List.mem_append, List.mem_cons] at hw ⊢
    tauto
  subst hself
  exact hg.trans (hload.symm.trans t.load_file)

theorem exists_course : ∃ first between last, t.Course first between last := by
  obtain ⟨first, rest, hvisits⟩ := List.append_of_mem t.read_outer
  obtain ⟨hdeclares, haround, hroot⟩ := t.not_leads_of_append hvisits
  obtain ⟨between, file?, last, rfl⟩ := t.exists_visit_pending hvisits
  have hnot := t.not_leads_of_visits_eq hvisits
  obtain rfl := t.file?_eq_of_visits_eq hvisits
  refine ⟨first, between, last, hvisits, fun v hv => hnot v ?_,
    hnot ⟨t.outer, some t.outerFile⟩ (by simp), fun v hv => hdeclares v ?_,
    hdeclares ⟨t.pending, some t.file⟩ (by simp), haround, hroot⟩
  · rw [List.append_assoc] at hv
    exact mem_append_cons_of_mem hv
  · rw [← List.append_assoc]
    exact mem_append_cons_of_mem hv

theorem Course.location_ne {t : FileModule d o root} {first between last : List Visit}
    (hc : t.Course first between last) {v : Visit} (hv : v ∈ first ++ between ++ last) {f : TreeFile} (hf : v.file? = some f) :
    f.location ≠ t.outerFile.location := by
  have hnodup := t.searches.nodup
  rw [filesOf] at hnodup
  have hperm : t.visits.Perm (⟨t.outer, some t.outerFile⟩ ::
      (first ++ between ++ ⟨t.pending, some t.file⟩ :: last)) := by
    rw [hc.visits_eq, List.append_assoc]
    exact List.perm_middle
  rw [((hperm.filterMap _).map _).nodup_iff] at hnodup
  have hmem : v ∈ first ++ between ++ ⟨t.pending, some t.file⟩ :: last := mem_append_cons_of_mem hv
  refine fun heq => (List.nodup_cons.mp hnodup).1 ?_
  show t.outerFile.location ∈ _
  rw [← heq]
  exact List.mem_map_of_mem (f := fun f : TreeFile => f.location)
    (List.mem_filterMap.mpr ⟨v, hmem, hf⟩)

/-! ## 2. The disk with the module in braces -/

/-- The module with its items in braces. -/
def body : Item := .inBraces t.head t.file.source

/-- The file with the module in braces where it was declared. -/
def source : SourceFile := { t.outerFile.source with items := t.site.fill [t.body] }

/-- No attribute at the start of the module's file names a file, and none on a module that it
declares. -/
structure HasNoPaths : Prop where
  attrs : ∀ a ∈ t.file.source.attrs, a.pathValue? = none
  heads : ∀ h, .fileModule h ∈ t.file.source.items → h.pathValue? = none

/-- That file as the search reads it. -/
def newFile : TreeFile := { t.outerFile with source := t.source }

/-- A disk on which the file with the declaration has been written anew, with the module in braces,
and the file of the module has been removed. -/
def Inlined (d' : Disk) : Prop :=
  ∃ text d₁, SourceFile.parse? text = some t.source ∧
    d.write t.outer.file (.text text) = some d₁ ∧ d₁.remove t.pending.file = some d'

variable {t}

theorem canonical?_outer : d.canonical? t.outer.file = some t.outerFile.location :=
  (load?_eq_some_iff.mp (t.searches.of_read t.read_outer rfl).1).1

theorem load?_outer : load? d t.outer = some t.outerFile := (t.searches.of_read t.read_outer rfl).1

theorem location_outer_ne : t.outerFile.location ≠ t.file.location := by
  obtain ⟨_, _, _, hc⟩ := t.exists_course
  exact fun heq => hc.not_leads_outer (canonical?_outer.trans (congrArg some heq))

theorem Inlined.exists_edits (h : t.Inlined d') (hp : d.IsPlain) :
    ∃ text d₁, SourceFile.parse? text = some t.source ∧
      Disk.Edit (some (.text text)) t.outerFile.location d d₁ ∧
        Disk.Edit none t.file.location d₁ d' := by
  obtain ⟨text, d₁, hparse, hwrite, hremove⟩ := h
  obtain ⟨old, hold⟩ := exists_nodeAt?_of_load? t.load?_outer
  obtain ⟨c, hc⟩ := exists_nodeAt?_of_load? t.load_file
  have hfirst := Disk.edit_of_write hp canonical?_outer hold hwrite
  have hsame : d₁.nodeAt? t.file.location = some (.file c) := by
    have hview := hfirst.view_of_ne hp (Ne.symm location_outer_ne)
    rw [Disk.view, Disk.view, hc] at hview
    obtain ⟨n, hn, heq⟩ := Option.map_eq_some_iff.mp hview
    cases n with
    | file c' => rw [hn, Option.some.inj heq]
    | directory es => cases heq
    | link target => cases heq
  have hthere : d₁.canonical? t.pending.file = some t.file.location :=
    (hfirst.canonical?_written hp _).trans t.leads_pending
  exact ⟨text, d₁, hparse, hfirst, Disk.edit_of_remove (hfirst.isPlain hp) hthere hsame hremove⟩

namespace Inlined

variable {p : FsPath}

theorem isDirectory_eq (h : t.Inlined d') (hp : d.IsPlain) (p : FsPath) :
    d'.isDirectory p = d.isDirectory p := by
  obtain ⟨_, d₁, -, hfirst, hsecond⟩ := h.exists_edits hp
  rw [hsecond.isDirectory_eq (hfirst.isPlain hp), hfirst.isDirectory_eq hp]

theorem located_eq (h : t.Inlined d') (hp : d.IsPlain) (dir : FsPath) :
    d'.located dir = (d.located dir).filter (·.2 != t.file.location) := by
  obtain ⟨_, d₁, -, hfirst, hsecond⟩ := h.exists_edits hp
  rw [hsecond.located_eq (hfirst.isPlain hp), hfirst.located_eq hp, List.filter_filter]
  simp

theorem canonical?_of_ne (h : t.Inlined d') (hp : d.IsPlain)
    (hne : d.canonical? p ≠ some t.file.location) : d'.canonical? p = d.canonical? p := by
  obtain ⟨_, d₁, -, hfirst, hsecond⟩ := h.exists_edits hp
  have heq := hfirst.canonical?_written hp p
  rw [hsecond.canonical?_of_ne (hfirst.isPlain hp) (heq ▸ hne), heq]

theorem readText?_of_ne (h : t.Inlined d') (hp : d.IsPlain)
    (hne : d.canonical? p ≠ some t.file.location)
    (houter : d.canonical? p ≠ some t.outerFile.location) : d'.readText? p = d.readText? p := by
  obtain ⟨_, d₁, -, hfirst, hsecond⟩ := h.exists_edits hp
  have heq := hfirst.canonical?_written hp p
  rw [hsecond.readText?_of_ne (hfirst.isPlain hp) (heq ▸ hne), hfirst.readText?_of_ne hp houter]

theorem parse_outer (h : t.Inlined d') (hp : d.IsPlain)
    (houter : d.canonical? p = some t.outerFile.location) :
    (d'.readText? p).bind SourceFile.parse? = some t.source := by
  obtain ⟨_, d₁, hparse, hfirst, hsecond⟩ := h.exists_edits hp
  have hne : d₁.canonical? p ≠ some t.file.location := by
    rw [hfirst.canonical?_written hp, houter, ne_eq, Option.some.injEq]
    exact location_outer_ne
  rw [hsecond.readText?_of_ne (hfirst.isPlain hp) hne, hfirst.readText?_written hp houter]
  exact hparse

/-- The file of the module has gone, and no other. -/
theorem keeps (h : t.Inlined d') (hp : d.IsPlain) :
    ModulePlace.Keeps (fun f => d.canonical? f ≠ some t.file.location) d d' := by
  obtain ⟨_, d₁, -, hfirst, hsecond⟩ := h.exists_edits hp
  have heq (f : FsPath) := hfirst.canonical?_written hp f
  constructor
  · intro f hf
    by_cases hl : d.canonical? f = some t.file.location
    · rw [hsecond.isFile_removed (hfirst.isPlain hp) ((heq f).trans hl)] at hf
      cases hf
    · rwa [hsecond.isFile_of_ne (hfirst.isPlain hp) (heq f ▸ hl), hfirst.isFile_written hp] at hf
  · intro f hl hf
    rwa [hsecond.isFile_of_ne (hfirst.isPlain hp) (heq f ▸ hl), hfirst.isFile_written hp]

theorem load?_of_ne (h : t.Inlined d') (hp : d.IsPlain) {q : Pending} (hne : ¬ t.Leads q)
    (houter : d.canonical? q.file ≠ some t.outerFile.location) : load? d' q = load? d q := by
  unfold load?
  rw [h.canonical?_of_ne hp hne, h.readText?_of_ne hp hne houter]

theorem load?_of_eq (h : t.Inlined d') (hp : d.IsPlain) {q : Pending} (hne : ¬ t.Leads q)
    (houter : d.canonical? q.file = some t.outerFile.location) :
    load? d' q = some ⟨t.outerFile.location, q.module, q.exported, t.source⟩ :=
  load?_eq_some_iff.mpr
    ⟨(h.canonical?_of_ne hp hne).trans houter, h.parse_outer hp houter, rfl, rfl⟩

/-! ## 3. The search on that disk -/

/-- A visit looks the same if it does not come to either of the two files. -/
theorem sameOn (h : t.Inlined d') (hp : d.IsPlain) {v : Visit} (hv : ¬ t.Leads v.pending)
    (hdeclares : ∀ q ∈ v.declares d o, ¬ t.Leads q)
    (hread : ∀ f, v.file? = some f →
      load? d v.pending = some f ∧ f.location ≠ t.outerFile.location) :
    v.SameOn d d' o t.file.location where
  pass := by
    intro f' hf'
    -- Where the visit leads to the file with the declaration, another text is read, but it is read.
    by_cases houter : d.canonical? v.pending.file = some t.outerFile.location
    · rw [h.load?_of_eq hp hv houter, Option.some.injEq] at hf'
      exact ⟨_, load?_of_canonical? t.load?_outer houter, hf' ▸ rfl, location_outer_ne⟩
    · rw [h.load?_of_ne hp hv houter] at hf'
      refine ⟨f', hf', rfl, fun heq => hv ?_⟩
      rw [Leads, (load?_eq_some_iff.mp hf').1, heq]
  read := by
    intro f hf
    obtain ⟨hload, hne⟩ := hread f hf
    have houter : d.canonical? v.pending.file ≠ some t.outerFile.location := by
      rw [(load?_eq_some_iff.mp hload).1, ne_eq, Option.some.injEq]
      exact hne
    refine ⟨(h.load?_of_ne hp hv houter).trans hload, ?_⟩
    unfold declaredBy
    rw [ModulePlace.declaredIn_eq_of_keeps (h.keeps hp) _ _ fun q hq => hdeclares q ?_]
    rw [Visit.declares, hf]
    exact List.mem_reverse.mpr hq

theorem isEnabled_body (hcompiled : o.enabled t.file.source.attrs = some true) :
    ModulePlace.isEnabled o (t.head.around t.file.source) = true := by
  have hhead := t.enabled t.head (List.mem_append_right _ (List.mem_singleton_self _))
  rw [ModulePlace.isEnabled_iff] at hhead ⊢
  exact Cfg.Options.enabled_append_eq_true_iff.mpr ⟨hhead, hcompiled⟩

/-- Within the braces, all is as in the file of the module, but for the directory from which
attributes name files. -/
theorem within_body (hpaths : t.HasNoPaths) :
    ∃ dir, t.place.within (t.head.around t.file.source) =
      { ModulePlace.ofPending t.pending with baseDir := dir } := by
  refine ⟨t.place.childrenDir.join ⟨t.head.ident.name⟩, ?_⟩
  have hnone : (t.head.around t.file.source).pathValue? = none := by
    rw [ModuleHead.pathValue?, ModuleHead.around, List.findSome?_append, ← ModuleHead.pathValue?, t.no_path]
    exact List.findSome?_eq_none_iff.mpr hpaths.attrs
  have hpath := t.no_path
  simp only [ModulePlace.within, ModulePlace.ofPending, pending, ModulePlace.pendingOf,
    ModulePlace.fileOf, hnone, hpath, Option.getD_none, ModulePlace.mk.injEq]
  refine ⟨rfl, rfl, rfl, ?_⟩
  split <;> rfl

/-- In braces, the module declares what it declares in its file. -/
theorem declared_body (h : t.Inlined d') (hp : d.IsPlain) (hpaths : t.HasNoPaths)
    (hcompiled : o.enabled t.file.source.attrs = some true)
    (hinner : ∀ q ∈ declaredBy d o t.pending t.file, ¬ t.Leads q) :
    ModulePlace.declared d' o t.place t.body =
      ModulePlace.declaredIn d o (.ofPending t.pending) t.file.source.items := by
  obtain ⟨dir, hwithin⟩ := within_body hpaths
  have hsame : ModulePlace.declaredIn d o { ModulePlace.ofPending t.pending with baseDir := dir }
      t.file.source.items = ModulePlace.declaredIn d o (.ofPending t.pending) t.file.source.items :=
    ModulePlace.declaredIn_of_no_path _ dir hpaths.heads
  rw [body, Item.inBraces, ModulePlace.declared, if_pos (isEnabled_body hcompiled), hwithin,
    ModulePlace.declaredIn_eq_of_keeps (h.keeps hp), hsame]
  intro q hq
  rw [hsame] at hq
  exact hinner q (List.mem_reverse.mpr hq)

/-- The file with the declaration now declares what both files have declared. -/
theorem declaredBy_newFile (h : t.Inlined d') (hp : d.IsPlain) (hpaths : t.HasNoPaths)
    (hcompiled : o.enabled t.file.source.attrs = some true) {first between last : List Visit}
    (hc : t.Course first between last) :
    declaredBy d' o t.outer t.newFile =
      t.after.reverse ++ declaredBy d o t.pending t.file ++ t.before.reverse := by
  have hheads : ∀ h ∈ t.site.heads, ModulePlace.isEnabled o h = true :=
    fun h hh => t.enabled h (List.mem_append_left _ hh)
  have hbefore := ModulePlace.declaredBefore_eq_of_keeps (o := o) (h.keeps hp) (.ofPending t.outer)
    t.site fun q hq => hc.not_leads_around q (List.mem_append_left _ hq)
  have hafter := ModulePlace.declaredAfter_eq_of_keeps (o := o) (h.keeps hp) (.ofPending t.outer)
    t.site fun q hq => hc.not_leads_around q (List.mem_append_right _ hq)
  have hbody := h.declared_body hp hpaths hcompiled hc.not_leads_inner
  rw [declaredBy, newFile, source, ModulePlace.declaredIn_fill _ hheads,
    ModulePlace.declaredIn_singleton, hbefore, hafter, ← place, hbody, pendingOf_append,
    pendingOf_append, List.reverse_append, List.reverse_append, ← List.append_assoc]
  rfl

theorem rootIn?_eq (h : t.Inlined d') (hp : d.IsPlain)
    (hroot : ∀ q ∈ rootIn? d root, ¬ t.Leads q) : rootIn? d' root = rootIn? d root :=
  rootIn?_eq_of_keeps (h.keeps hp) hroot

theorem load?_newFile (h : t.Inlined d') (hp : d.IsPlain) (houter : ¬ t.Leads t.outer) :
    load? d' t.outer = some t.newFile := by
  obtain ⟨-, -, hmodule, hexported⟩ := load?_eq_some_iff.mp t.load?_outer
  rw [h.load?_of_eq hp houter canonical?_outer, newFile, hmodule, hexported]

/-- A search that next comes to the file of the module has nothing else pending before it. -/
theorem eq_nil_of_searches {first between last : List Visit} (hc : t.Course first between last)
    {reached : List Location} {above below : List Pending}
    (hrun : Searches d o reached (above ++ t.pending :: below) (⟨t.pending, some t.file⟩ :: last)) :
    above = [] := by
  cases above with
  | nil => rfl
  | cons q above =>
    exfalso
    cases hrun with
    | read _ _ hs =>
      have hmem : t.pending ∈ last.map (·.pending) :=
        hs.sublist.subset (List.mem_append_right _ (List.mem_append_right _ List.mem_cons_self))
      obtain ⟨v, hv, heq⟩ := List.mem_map.mp hmem
      exact hc.not_leads v (List.mem_append_right _ hv) (heq ▸ t.leads_pending)

theorem searches_of_sameOn {loc : Location} {reached reached' : List Location}
    {pending : List Pending} {visits : List Visit} (hs : Searches d o reached pending visits)
    (hreached : ∀ l, l ≠ loc → (l ∈ reached' ↔ l ∈ reached))
    (hsame : ∀ v ∈ visits, v.SameOn d d' o loc) : Searches d' o reached' pending visits := by
  rw [← List.append_nil pending, ← List.append_nil visits] at hs
  obtain ⟨_, next', rest, hend, -, hgoal⟩ :=
    hs.transfer [] hreached hsame (fun _ _ h => by cases h)
  have hnil : rest = [] := by
    rw [List.append_nil] at hend
    cases hend
    rfl
  rw [hnil] at hgoal
  have hall := hgoal [] (.done next')
  rw [List.append_nil, List.append_nil] at hall
  exact hall

/-- **The search with the module in braces.** It makes the same visits, but for the one of the file
that has gone. -/
theorem searches (h : t.Inlined d') (hp : d.IsPlain) (hpaths : t.HasNoPaths)
    (hcompiled : o.enabled t.file.source.attrs = some true) {first between last : List Visit}
    (hc : t.Course first between last) :
    Searches d' o [] (rootIn? d' root).toList
      (first ++ ⟨t.outer, some t.newFile⟩ :: (between ++ last)) := by
  have hsame : ∀ v ∈ first ++ between ++ last, v.SameOn d d' o t.file.location := by
    intro v hv
    refine h.sameOn hp (hc.not_leads v hv) (hc.not_leads_declares v hv) fun f hf => ?_
    refine ⟨(t.searches.of_read ?_ hf).1, hc.location_ne hv hf⟩
    rw [hc.visits_eq]
    refine mem_append_cons_of_mem ?_
    rw [← List.append_assoc]
    exact mem_append_cons_of_mem hv
  have hrun := t.searches
  rw [hc.visits_eq, ← List.append_nil (rootIn? d root).toList] at hrun
  rw [h.rootIn?_eq hp hc.not_leads_root, ← List.append_nil (rootIn? d root).toList]
  -- Up to the file with the declaration nothing is different.
  have hnone : ∀ l, l ≠ t.file.location → (l ∈ ([] : List Location) ↔ l ∈ ([] : List Location)) :=
    fun _ _ => Iff.rfl
  obtain ⟨reached, reached', rest, hrun, hreached, hgoal⟩ := hrun.transfer [] hnone
    (fun v hv => hsame v (by simp [hv])) (fun _ _ h => by cases h)
  refine hgoal _ ?_
  generalize rest ++ [] = stack at hrun ⊢
  cases hrun with
  | @read _ _ stack _ _ hload hnew hrun =>
  refine .read (h.load?_newFile hp hc.not_leads_outer)
    (fun hmem => hnew ((hreached _ location_outer_ne).mp hmem)) ?_
  have hreached : ∀ l, l ≠ t.file.location →
      (l ∈ t.newFile.location :: reached' ↔ l ∈ t.outerFile.location :: reached) := by
    intro l hl
    rw [List.mem_cons, List.mem_cons, hreached l hl]
    rfl
  -- From there on, what the module declares is pending in its place.
  rw [declaredBy_outer, List.append_assoc, List.cons_append] at hrun
  rw [h.declaredBy_newFile hp hpaths hcompiled hc, List.append_assoc, List.append_assoc]
  obtain ⟨next, next', above, hrun, hnext, hgoal⟩ := hrun.transfer
    (declaredBy d o t.pending t.file ++ (t.before.reverse ++ stack)) hreached
    (fun v hv => hsame v (by simp [hv])) (fun v hv heq => by
      rw [List.head?_cons, Option.some.injEq] at heq
      exact hc.not_leads v (by simp [hv]) (heq ▸ t.leads_pending))
  refine hgoal _ ?_
  obtain rfl := eq_nil_of_searches hc hrun
  cases hrun with
  | read _ _ hrun =>
  -- After the file of the module, the same is pending again.
  refine searches_of_sameOn hrun (fun l hl => ?_) fun v hv => hsame v (by simp [hv])
  rw [hnext l hl, List.mem_cons]
  exact (or_iff_right hl).symm

end Inlined

end FileModule

end EnumCatalog
