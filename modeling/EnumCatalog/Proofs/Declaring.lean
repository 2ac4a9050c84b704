import EnumCatalog.Proofs.PlainDisk
import EnumCatalog.Proofs.Site
import EnumCatalog.ModuleTree

/-!
# What items declare

There are two walks through the items of a file. One looks for enums and gathers what holds at each
place (`Place`), the other looks for modules without a body and gathers where their files are
(`ModulePlace`). Both go down through modules in braces, and they agree on which module a place is
in and whether it can be named from the crate root (`Place.agrees_descend`).

What items declare depends on the disk at one point only: whether the file next to the directory of
a module is there (`ModulePlace.fileOf`). So when files go, the same modules are declared, unless it
was the file of one of them (`declaredIn_eq_of_keeps`).
-/

set_option autoImplicit false

namespace EnumCatalog

open Syntax (Attribute Item ModuleHead)

/-! ## 1. The two walks -/

namespace Cfg

theorem Options.enabled_append_eq_true_iff {o : Options} {as bs : List Attribute} :
    o.enabled (as ++ bs) = some true ↔ o.enabled as = some true ∧ o.enabled bs = some true := by
  unfold enabled
  rw [List.filter_append, List.map_append, Verdict.all_eq_true_iff, Verdict.all_eq_true_iff,
    Verdict.all_eq_true_iff, List.forall_mem_append]

end Cfg

namespace ModulePlace

/-- The place within modules in braces. -/
def descend (p : ModulePlace) (hs : List ModuleHead) : ModulePlace := hs.foldl within p

@[simp] theorem descend_nil (p : ModulePlace) : p.descend [] = p := rfl

@[simp] theorem descend_cons (p : ModulePlace) (h : ModuleHead) (hs : List ModuleHead) :
    p.descend (h :: hs) = (p.within h).descend hs := rfl

end ModulePlace

/-- A place of the search for enums is compiled, and it is in the module that a place of the search
for modules is in. -/
structure Place.Agrees (p : Place) (q : ModulePlace) : Prop where
  module? : p.module? = some q.module
  exported : p.exported = q.exported
  enabled : p.enabled = some true

theorem Place.Agrees.exports {p : Place} {q : ModulePlace} (h : p.Agrees q) (head : ModuleHead) :
    p.exports head.vis = q.exports head := by
  rw [Place.exports, ModulePlace.exports, h.module?, h.exported, Option.any_some]

theorem ModulePlace.isEnabled_iff {o : Cfg.Options} {h : ModuleHead} :
    isEnabled o h = true ↔ o.enabled h.attrs = some true := by
  rw [isEnabled, beq_iff_eq]

theorem Place.Agrees.within {p : Place} {q : ModulePlace} {o : Cfg.Options} {head : ModuleHead}
    (h : p.Agrees q) (he : ModulePlace.isEnabled o head = true) :
    (p.within o head).Agrees (q.within head) where
  module? := by rw [Place.within, h.module?]; rfl
  exported := h.exports head
  enabled := (Cfg.Verdict.and_eq_true_iff _ _).mpr ⟨h.enabled, ModulePlace.isEnabled_iff.mp he⟩

/-- Within modules in braces that are compiled, the walks agree. -/
theorem Place.agrees_descend {p : Place} {q : ModulePlace} {o : Cfg.Options}
    {heads : List ModuleHead} (h : p.Agrees q)
    (he : ∀ head ∈ heads, ModulePlace.isEnabled o head = true) :
    (p.descend o heads).Agrees (q.descend heads) := by
  induction heads generalizing p q with
  | nil => exact h
  | cons head heads ih =>
    rw [List.forall_mem_cons] at he
    exact ih (h.within he.1) he.2

/-! ## 2. Declarations of a list of items -/

namespace ModuleTree

theorem pendingOf_append (as bs : List Declared) :
    pendingOf (as ++ bs) = pendingOf as ++ pendingOf bs := List.filterMap_append

end ModuleTree

namespace ModulePlace

variable {d d' : Disk} {o : Cfg.Options}

theorem declaredIn_append (p : ModulePlace) (xs ys : List Item) :
    declaredIn d o p (xs ++ ys) = declaredIn d o p xs ++ declaredIn d o p ys := by
  induction xs with
  | nil => rfl
  | cons i xs ih => rw [List.cons_append, declaredIn, declaredIn, ih, List.append_assoc]

theorem declaredIn_singleton (p : ModulePlace) (i : Item) :
    declaredIn d o p [i] = declared d o p i := by
  rw [declaredIn, declaredIn, List.append_nil]

/-- What is declared before a site, and what after it, on every level. -/
def declaredBefore (d : Disk) (o : Cfg.Options) (p : ModulePlace) : Site → List Declared
  | .here before _ => declaredIn d o p before
  | .within before h s _ => declaredIn d o p before ++ declaredBefore d o (p.within h) s

@[inherit_doc declaredBefore]
def declaredAfter (d : Disk) (o : Cfg.Options) (p : ModulePlace) : Site → List Declared
  | .here _ after => declaredIn d o p after
  | .within _ h s after => declaredAfter d o (p.within h) s ++ declaredIn d o p after

/-- What is declared around a site does not depend on what is at the site. -/
theorem declaredIn_fill (p : ModulePlace) {s : Site}
    (he : ∀ head ∈ s.heads, isEnabled o head = true) (xs : List Item) :
    declaredIn d o p (s.fill xs) =
      declaredBefore d o p s ++ declaredIn d o (p.descend s.heads) xs ++ declaredAfter d o p s := by
  induction s generalizing p with
  | here before after =>
    rw [Site.fill, declaredIn_append, declaredIn_append]
    rfl
  | within before h s after ih =>
    rw [Site.heads, List.forall_mem_cons] at he
    rw [Site.fill, declaredIn_append, declaredIn, declared, if_pos he.1, ih (p.within h) he.2,
      declaredBefore, declaredAfter, Site.heads, descend_cons]
    simp only [List.append_assoc]

/-- The directory from which attributes name files does not matter if none does. -/
theorem declaredIn_of_no_path (p : ModulePlace) (dir : FsPath) {items : List Item}
    (h : ∀ head, .fileModule head ∈ items → head.pathValue? = none) :
    declaredIn d o { p with baseDir := dir } items = declaredIn d o p items := by
  induction items with
  | nil => rfl
  | cons i items ih =>
    rw [declaredIn, declaredIn, ih fun head hmem => h head (List.mem_cons_of_mem i hmem)]
    congr 1
    cases i with
    | fileModule head =>
      have hnone := h head List.mem_cons_self
      rw [declared, declared]
      split
      · simp only [pendingOf, fileOf, hnone]
        rfl
      · rfl
    | inlineModule head inner => rw [declared, declared]; rfl
    | _ => rfl

/-! ## 3. On a disk that has lost files -/

/-- A disk has no files but those of another one, and among them all those of certain names. -/
structure Keeps (kept : FsPath → Prop) (d d' : Disk) : Prop where
  isFile : ∀ f, d'.isFile f = true → d.isFile f = true
  kept : ∀ f, kept f → d.isFile f = true → d'.isFile f = true

variable {kept : FsPath → Prop}

/-- The module that a declaration leads to stays as it is, unless its file has gone. -/
theorem pendingOf_eq_of_keeps (hkeeps : Keeps kept d d') (p : ModulePlace) (h : ModuleHead)
    (hfile : kept (p.pendingOf d h).file) : p.pendingOf d' h = p.pendingOf d h := by
  unfold pendingOf fileOf at *
  cases hpath : h.pathValue? with
  | some path => rfl
  | none =>
    simp only [hpath] at hfile ⊢
    cases hflat : d.isFile (p.childrenDir.join ⟨h.ident.name ++ ".rs"⟩) with
    | true =>
      rw [hflat, if_pos rfl] at hfile
      rw [hkeeps.kept _ hfile hflat]
    | false =>
      have hflat' : d'.isFile (p.childrenDir.join ⟨h.ident.name ++ ".rs"⟩) = false := by
        rw [Bool.eq_false_iff]
        exact fun ht => Bool.false_ne_true (hflat.symm.trans (hkeeps.isFile _ ht))
      rw [hflat']

mutual

theorem declared_eq_of_keeps (hkeeps : Keeps kept d d') (p : ModulePlace) (i : Item)
    (h : ∀ q ∈ ModuleTree.pendingOf (declared d o p i), kept q.file) :
    declared d' o p i = declared d o p i := by
  cases i with
  | fileModule head =>
    rw [declared] at h ⊢
    rw [declared]
    split
    case isTrue he =>
      rw [if_pos he] at h
      rw [pendingOf_eq_of_keeps hkeeps p head (h _ (List.mem_singleton_self _))]
    case isFalse => rfl
  | inlineModule head items =>
    rw [declared] at h ⊢
    rw [declared]
    split
    case isTrue he =>
      rw [if_pos he] at h
      exact declaredIn_eq_of_keeps hkeeps (p.within head) items h
    case isFalse => rfl
  | _ => rfl

/-- Items declare the same modules, unless the file of one of these has gone. -/
theorem declaredIn_eq_of_keeps (hkeeps : Keeps kept d d') (p : ModulePlace)
    (items : List Item)
    (h : ∀ q ∈ ModuleTree.pendingOf (declaredIn d o p items), kept q.file) :
    declaredIn d' o p items = declaredIn d o p items := by
  cases items with
  | nil => rfl
  | cons i rest =>
    rw [declaredIn, ModuleTree.pendingOf_append] at h
    rw [declaredIn, declaredIn,
      declared_eq_of_keeps hkeeps p i fun q hq => h q (List.mem_append_left _ hq),
      declaredIn_eq_of_keeps hkeeps p rest fun q hq => h q (List.mem_append_right _ hq)]

end

theorem declaredBefore_eq_of_keeps (hkeeps : Keeps kept d d') (p : ModulePlace)
    (s : Site)
    (h : ∀ q ∈ ModuleTree.pendingOf (declaredBefore d o p s), kept q.file) :
    declaredBefore d' o p s = declaredBefore d o p s := by
  induction s generalizing p with
  | here before after => exact declaredIn_eq_of_keeps hkeeps p before h
  | within before head s after ih =>
    rw [declaredBefore, ModuleTree.pendingOf_append] at h
    rw [declaredBefore, declaredBefore,
      declaredIn_eq_of_keeps hkeeps p before fun q hq => h q (List.mem_append_left _ hq),
      ih (p.within head) fun q hq => h q (List.mem_append_right _ hq)]

theorem declaredAfter_eq_of_keeps (hkeeps : Keeps kept d d') (p : ModulePlace)
    (s : Site)
    (h : ∀ q ∈ ModuleTree.pendingOf (declaredAfter d o p s), kept q.file) :
    declaredAfter d' o p s = declaredAfter d o p s := by
  induction s generalizing p with
  | here before after => exact declaredIn_eq_of_keeps hkeeps p after h
  | within before head s after ih =>
    rw [declaredAfter, ModuleTree.pendingOf_append] at h
    rw [declaredAfter, declaredAfter,
      declaredIn_eq_of_keeps hkeeps p after fun q hq => h q (List.mem_append_right _ hq),
      ih (p.within head) fun q hq => h q (List.mem_append_left _ hq)]

end ModulePlace

/-- The root file of a crate stays the same, unless it has gone. -/
theorem ModuleTree.rootIn?_eq_of_keeps {d d' : Disk} {kept : FsPath → Prop} {root : FsPath}
    (hkeeps : ModulePlace.Keeps kept d d') (h : ∀ q ∈ rootIn? d root, kept q.file) :
    rootIn? d' root = rootIn? d root := by
  have hfind : (rootNames.map root.join).find? d'.isFile =
      (rootNames.map root.join).find? d.isFile := by
    cases hfound : (rootNames.map root.join).find? d.isFile with
    | none =>
      rw [List.find?_eq_none] at hfound ⊢
      exact fun f hf hfile => hfound f hf (hkeeps.isFile f hfile)
    | some file =>
      have hkept : kept file := by
        refine h ⟨file, .root, true, root⟩ ?_
        rw [Option.mem_def, rootIn?, hfound]
        rfl
      rw [List.find?_eq_some_iff_append] at hfound ⊢
      obtain ⟨hfile, as, bs, heq, has⟩ := hfound
      refine ⟨hkeeps.kept file hkept hfile, as, bs, heq, fun f hf => ?_⟩
      have hno := has f hf
      rw [Bool.not_eq_true', Bool.eq_false_iff] at hno ⊢
      exact fun ht => hno (hkeeps.isFile f ht)
  rw [rootIn?, rootIn?, hfind]

end EnumCatalog
