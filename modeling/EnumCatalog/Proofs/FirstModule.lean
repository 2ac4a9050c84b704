import EnumCatalog.Proofs.DiskChanges
import EnumCatalog.Proofs.Equality
import EnumCatalog.Proofs.FileModule

/-!
# The first module of a crate

Whether a crate has a module with a file of its own that can be moved into braces can be found out
from its disk. Looked at is the first module without a body that the root file declares
(`Site.firstIn`). If the root file declares no other, and its own file none at all, then the search
for the files of the crate makes just two visits (`ModuleTree.Searches.two`), and all that is asked
of such a module can be tested (`FileModule.first?`).

The text with the module in braces is given, and it is tested whether it is read as such
(`FileModule.inline?`).
-/

set_option autoImplicit false

namespace EnumCatalog

open ModuleTree
open Syntax (Item ModuleHead SourceFile)

/-! ## 1. The first declaration -/

namespace Site

mutual

/-- The first declaration of a module without a body in an item that is followed by others, with its
site among them. -/
def firstOf (after : List Item) : Item → Option (Site × ModuleHead)
  | .fileModule h => some (.here [] after, h)
  | .inlineModule h items => (firstIn items).map fun x => (.within [] h x.1 after, x.2)
  | _ => none

/-- The first declaration of a module without a body in items, with its site. -/
def firstIn : List Item → Option (Site × ModuleHead)
  | [] => none
  | i :: rest => (firstOf rest i).or ((firstIn rest).map fun x => (x.1.past i, x.2))

end

mutual

theorem fill_firstOf {after : List Item} {i : Item} {x : Site × ModuleHead}
    (h : firstOf after i = some x) : x.1.fill [.fileModule x.2] = i :: after := by
  cases i with
  | fileModule head =>
    rw [firstOf, Option.some.injEq] at h
    rw [← h]
    rfl
  | inlineModule head items =>
    rw [firstOf, Option.map_eq_some_iff] at h
    obtain ⟨y, hy, rfl⟩ := h
    rw [fill_within_nil, fill_firstIn hy]
  | _ => simp [firstOf] at h

theorem fill_firstIn {items : List Item} {x : Site × ModuleHead} (h : firstIn items = some x) :
    x.1.fill [.fileModule x.2] = items := by
  cases items with
  | nil => rw [firstIn] at h; cases h
  | cons i rest =>
    rw [firstIn, Option.or_eq_some_iff] at h
    rcases h with h | ⟨-, h⟩
    · exact fill_firstOf h
    · obtain ⟨y, hy, rfl⟩ := Option.map_eq_some_iff.mp h
      rw [fill_past, fill_firstIn hy]

end

end Site

/-! ## 2. Crates of two files -/

/-- If the root file declares one module, and that one none, there are two visits. -/
theorem ModuleTree.Searches.two {d : Disk} {o : Cfg.Options} {p q : Pending} {f g : TreeFile}
    (hf : load? d p = some f) (hg : load? d q = some g) (hne : g.location ≠ f.location)
    (hone : declaredBy d o p f = [q]) (hnone : declaredBy d o q g = []) :
    Searches d o [] [p] [⟨p, some f⟩, ⟨q, some g⟩] := by
  refine .read hf List.not_mem_nil ?_
  rw [hone]
  refine .read hg (fun hmem => hne (List.mem_singleton.mp hmem)) ?_
  rw [hnone]
  exact .done _

namespace FileModule

variable {d d' : Disk} {o : Cfg.Options} {root : FsPath}

/-- The first module without a body that the root file declares, if it is the only one, is compiled,
is found by its name and declares no others. -/
def first? (d : Disk) (o : Cfg.Options) (root : FsPath) : Option (FileModule d o root) :=
  match hroot : rootIn? d root with
  | none => none
  | some p =>
  match hf : load? d p with
  | none => none
  | some f =>
  match hx : Site.firstIn f.source.items with
  | none => none
  | some x =>
  match hg : load? d (((ModulePlace.ofPending p).descend x.1.heads).pendingOf d x.2) with
  | none => none
  | some g =>
    if hok : (∀ h ∈ x.1.heads ++ [x.2], ModulePlace.isEnabled o h = true) ∧
        x.2.pathValue? = none ∧ g.location ≠ f.location ∧
        declaredBy d o p f = [((ModulePlace.ofPending p).descend x.1.heads).pendingOf d x.2] ∧
        declaredBy d o (((ModulePlace.ofPending p).descend x.1.heads).pendingOf d x.2) g = [] then
      some {
        visits := [⟨p, some f⟩,
          ⟨((ModulePlace.ofPending p).descend x.1.heads).pendingOf d x.2, some g⟩]
        searches := by
          rw [hroot]
          exact .two hf hg hok.2.2.1 hok.2.2.2.1 hok.2.2.2.2
        outer := p
        outerFile := f
        read_outer := List.mem_cons_self
        site := x.1
        head := x.2
        items_eq := (Site.fill_firstIn hx).symm
        enabled := hok.1
        no_path := hok.2.1
        file := g
        load_file := hg
        once := by
          have hne : d.canonical? p.file ≠ some g.location := by
            rw [(load?_eq_some_iff.mp hf).1, ne_eq, Option.some.injEq]
            exact fun heq => hok.2.2.1 heq.symm
          rw [List.countP_cons_of_neg (by simpa using hne)]
          exact List.countP_le_length }
    else none

/-- The file that a declaration names by an attribute. -/
def pathOf? : Item → Option String
  | .fileModule h => h.pathValue?
  | _ => none

theorem hasNoPaths_iff {t : FileModule d o root} : t.HasNoPaths ↔
    (∀ a ∈ t.file.source.attrs, a.pathValue? = none) ∧
      ∀ i ∈ t.file.source.items, pathOf? i = none := by
  constructor
  · intro h
    refine ⟨h.attrs, fun i hi => ?_⟩
    cases i with
    | fileModule head => exact h.heads head hi
    | _ => rfl
  · rintro ⟨hattrs, hitems⟩
    exact ⟨hattrs, fun head hhead => hitems _ hhead⟩

instance (t : FileModule d o root) : Decidable t.HasNoPaths :=
  decidable_of_iff _ hasNoPaths_iff.symm

/-- What comes of the disk when a text takes the place of the file with the declaration and the file
of the module goes, provided that the text has the module in braces. -/
def inline? (t : FileModule d o root) (text : String) : Option Disk :=
  if SourceFile.parse? text = some t.source then
    (d.write t.outer.file (.text text)).bind (·.remove t.pending.file)
  else none

theorem inlined_of_inline? {t : FileModule d o root} {text : String}
    (h : t.inline? text = some d') : t.Inlined d' := by
  rw [inline?] at h
  split at h
  case isTrue hparse =>
    obtain ⟨d₁, hwrite, hremove⟩ := Option.bind_eq_some_iff.mp h
    exact ⟨text, d₁, hparse, hwrite, hremove⟩
  case isFalse => cases h

end FileModule

/-- A module that is put in braces, and the disks before and after. -/
structure Inlining (o : Cfg.Options) (root : FsPath) where
  before : Disk
  after : Disk
  isPlain : before.IsPlain
  module : FileModule before o root
  inlined : module.Inlined after

/-- The first module of a crate, put in braces by a text that takes the place of the root file. The
crate is given by the texts of its files. -/
def Inlining.ofTexts? (o : Cfg.Options) (root : FsPath) (files : List (String × String))
    (text : String) : Option (Inlining o root) :=
  match FileModule.first? (.ofTexts files) o root with
  | none => none
  | some t =>
    match h : t.inline? text with
    | none => none
    | some d' => some {
        before := .ofTexts files
        after := d'
        isPlain := Disk.isPlain_ofTexts files
        module := t
        inlined := FileModule.inlined_of_inline? h }

end EnumCatalog
