import EnumCatalog.Proofs.DiskFiles

/-!
# Plain disks under change

A disk starts out plain, and all that can be done to it leaves it plain, but for making a link
(`Disk.IsPlain.write`, `Disk.IsPlain.makeDirectory`, `Disk.IsPlain.remove`). That the entries of a
directory stay in order is a matter of `Entries.set`. That they stand under proper names is one of
the look-up, which never puts a piece of a name into a location that is empty, a dot or two dots
(`isEntryName_of_locate?`).

So disks that come of installing texts are plain (`Disk.isPlain_ofTexts`).
-/

set_option autoImplicit false

namespace EnumCatalog

/-! ## 1. Entries -/

namespace Entries

theorem mem_of_mem_set {name : String} {n : Node} {es : Entries} {e : String × Node}
    (h : e ∈ set name n es) : e = (name, n) ∨ e ∈ es := by
  induction es with
  | nil => exact Or.inl (List.mem_singleton.mp h)
  | cons e' es ih =>
    rw [set] at h
    split at h
    · rcases List.mem_cons.mp h with h | h
      · exact Or.inl h
      · exact Or.inr (List.mem_cons_of_mem _ h)
    split at h
    · exact List.mem_cons.mp h
    · rcases List.mem_cons.mp h with rfl | h
      · exact Or.inr List.mem_cons_self
      · exact (ih h).imp_right (List.mem_cons_of_mem _)

theorem IsPlain.set {name : String} {n : Node} {es : Entries} (h : IsPlain es)
    (hname : IsEntryName name) (hn : n.IsPlain) : IsPlain (set name n es) := by
  induction es with
  | nil => exact ⟨hname, hn, fun _ he => (List.not_mem_nil he).elim, trivial⟩
  | cons e es ih =>
    obtain ⟨he, hplain, hlt, hes⟩ := h
    rw [Entries.set]
    split
    case isTrue heq => exact ⟨hname, hn, beq_iff_eq.mp heq ▸ hlt, hes⟩
    case isFalse hne =>
    split
    case isTrue hless =>
      refine ⟨hname, hn, fun e' he' => ?_, he, hplain, hlt, hes⟩
      rcases List.mem_cons.mp he' with rfl | he'
      · exact hless
      · exact String.lt_trans hless (hlt e' he')
    case isFalse hless =>
      refine ⟨he, hplain, fun e' he' => ?_, ih hes⟩
      rcases mem_of_mem_set he' with rfl | he'
      · -- It is neither the same name nor a greater one.
        refine String.not_le.mp fun hle => ?_
        have heq : name = e.1 := String.le_antisymm hle (String.not_lt.mp hless)
        exact hne (beq_iff_eq.mpr heq.symm)
      · exact hlt e' he'

theorem IsPlain.erase {es : Entries} (h : IsPlain es) (name : String) :
    IsPlain (Entries.erase es name) := h.sublist List.filter_sublist

/-- A change of one directory that leaves it plain leaves all around it plain. -/
theorem IsPlain.updateAt {f : Entries → Entries} (hf : ∀ es, IsPlain es → IsPlain (f es))
    {es es' : Entries} (h : IsPlain es) {l : Location} (hup : updateAt f es l = some es') :
    IsPlain es' := by
  induction l generalizing es es' with
  | nil =>
    rw [Entries.updateAt, Option.some.injEq] at hup
    exact hup ▸ hf es h
  | cons name l ih =>
    rw [Entries.updateAt] at hup
    split at hup
    case h_1 inner hget =>
      obtain ⟨inner', hinner, heq⟩ := Option.bind_eq_some_iff.mp hup
      obtain ⟨as, bs, hes⟩ := exists_split_of_get? hget
      have hsplit := (hes ▸ h).split
      have hplain := hsplit.2.2.2
      rw [Node.IsPlain] at hplain
      rw [← Option.some.inj heq]
      refine h.set hsplit.2.2.1 ?_
      rw [Node.IsPlain]
      exact ih hplain hinner
    case h_2 => cases hup

end Entries

/-! ## 2. Names -/

theorem FsPath.not_mem_pieces {cs piece : List Char} (h : piece ∈ pieces cs) : '/' ∉ piece := by
  induction cs generalizing piece with
  | nil =>
    rw [List.mem_singleton.mp h]
    exact List.not_mem_nil
  | cons c cs ih =>
    rw [pieces] at h
    split at h
    case isTrue =>
      rcases List.mem_cons.mp h with rfl | h
      · exact List.not_mem_nil
      · exact ih h
    case isFalse hc =>
      have hslash : '/' ≠ c := fun heq => hc (beq_iff_eq.mpr heq.symm)
      cases hps : pieces cs with
      | nil => exact absurd hps (pieces_ne_nil cs)
      | cons p ps =>
        rw [hps] at h ih
        rcases List.mem_cons.mp h with rfl | h
        · exact fun hmem => (List.mem_cons.mp hmem).elim hslash (ih List.mem_cons_self)
        · exact ih (List.mem_cons_of_mem p h)

namespace Disk

variable {d d' : Disk} {l : Location} {p : FsPath}

theorem not_mem_piecesOf {piece : String} (h : piece ∈ piecesOf p) : '/' ∉ piece.toList := by
  obtain ⟨cs, hcs, rfl⟩ := List.mem_map.mp h
  rw [String.toList_ofList]
  exact FsPath.not_mem_pieces hcs

/-- A look-up takes a piece into a location only if it is neither empty nor made of dots. -/
theorem isEntryName_of_walk (hp : d.IsPlain) {last : Last}
    {jump : Location → List String → Option Location} {here : Location} {pieces : List String}
    (hhere : ∀ n ∈ here, IsEntryName n) (hpieces : ∀ piece ∈ pieces, '/' ∉ piece.toList)
    (h : walk d last jump here pieces = some l) : ∀ n ∈ l, IsEntryName n := by
  -- By the pieces. A step up drops a name, and only pieces that pass all tests are added as names.
  induction pieces generalizing here with
  | nil =>
    rw [walk, Option.some.injEq] at h
    exact h ▸ hhere
  | cons piece pieces ih =>
    have hrest : ∀ q ∈ pieces, '/' ∉ q.toList := fun q hq => hpieces q (List.mem_cons_of_mem _ hq)
    rw [walk_cons hp] at h
    split at h
    case isTrue => exact ih hhere hrest h
    case isFalse hfiller =>
    split at h
    case isTrue =>
      split at h
      · cases h
      · exact ih (fun n hn => hhere n (List.dropLast_subset here hn)) hrest h
    case isFalse hup =>
    simp only [Bool.or_eq_true, beq_iff_eq, not_or] at hfiller hup
    have hname : IsEntryName piece :=
      ⟨hfiller.1, hfiller.2, hup, hpieces piece List.mem_cons_self⟩
    have hthere : ∀ n ∈ here ++ [piece], IsEntryName n := by
      intro n hn
      rcases List.mem_append.mp hn with hn | hn
      · exact hhere n hn
      · exact List.mem_singleton.mp hn ▸ hname
    split at h
    · exact ih hthere hrest h
    · split at h
      · exact Option.some.inj h ▸ hthere
      · cases h
    · split at h
      · exact Option.some.inj h ▸ hthere
      · cases h

theorem isEntryName_of_locate? (hp : d.IsPlain) {last : Last} (h : d.locate? last p = some l) :
    ∀ n ∈ l, IsEntryName n := by
  rw [locate?_of_isPlain hp] at h
  split at h
  · cases h
  · exact isEntryName_of_walk hp (fun _ hn => (List.not_mem_nil hn).elim)
      (fun _ hq => not_mem_piecesOf hq) h

/-! ## 3. Changes -/

theorem isPlain_empty : empty.IsPlain := trivial

theorem IsPlain.setAt (hp : d.IsPlain) (hl : ∀ n ∈ l, IsEntryName n) {n : Node} (hn : n.IsPlain)
    (h : d.setAt l n = some d') : d'.IsPlain := by
  obtain ⟨name, hname, h⟩ := Option.bind_eq_some_iff.mp h
  obtain ⟨es, hup, h⟩ := Option.bind_eq_some_iff.mp h
  rw [← Option.some.inj h]
  exact Entries.IsPlain.updateAt
    (fun es hes => hes.set (hl name (List.mem_of_getLast? hname)) hn) hp hup

theorem IsPlain.makeDirectory (hp : d.IsPlain) (h : d.makeDirectory p = some d') : d'.IsPlain := by
  rw [Disk.makeDirectory] at h
  split at h
  · exact Option.some.inj h ▸ hp
  obtain ⟨l, hl, h⟩ := Option.bind_eq_some_iff.mp h
  split at h
  · cases h
  refine hp.setAt ?_ (n := .directory []) ?_ h
  · rw [Option.orElse_eq_orElse, Option.orElse_eq_or, Option.or_eq_some_iff] at hl
    rcases hl with hl | ⟨-, hl⟩
    · exact isEntryName_of_locate? hp hl
    · exact isEntryName_of_locate? hp hl
  · rw [Node.IsPlain]
    trivial

theorem IsPlain.makeDirectories (hp : d.IsPlain) (h : d.makeDirectories p = some d') :
    d'.IsPlain := by
  rw [Disk.makeDirectories] at h
  generalize directoriesTo p = ps at h
  induction ps generalizing d with
  | nil => exact Option.some.inj h ▸ hp
  | cons q ps ih =>
    rw [List.foldlM_cons] at h
    obtain ⟨d₁, hd, h⟩ := Option.bind_eq_some_iff.mp h
    exact ih (hp.makeDirectory hd) h

theorem IsPlain.write (hp : d.IsPlain) {c : Content} (h : d.write p c = some d') : d'.IsPlain := by
  obtain ⟨l, hl, h⟩ := Option.bind_eq_some_iff.mp h
  split at h
  · cases h
  · exact hp.setAt (isEntryName_of_locate? hp hl) (n := .file c) trivial h

theorem IsPlain.install (hp : d.IsPlain) {c : Content} (h : d.install p c = some d') :
    d'.IsPlain := by
  rw [Disk.install] at h
  split at h
  · obtain ⟨d₁, hd, h⟩ := Option.bind_eq_some_iff.mp h
    exact (hp.makeDirectories hd).write h
  · exact hp.write h

theorem IsPlain.remove (hp : d.IsPlain) (h : d.remove p = some d') : d'.IsPlain := by
  obtain ⟨l, -, h⟩ := Option.bind_eq_some_iff.mp h
  obtain ⟨name, -, h⟩ := Option.bind_eq_some_iff.mp h
  obtain ⟨es, hup, h⟩ := Option.bind_eq_some_iff.mp h
  rw [← Option.some.inj h]
  exact Entries.IsPlain.updateAt (fun es hes => hes.erase name) hp hup

/-- Installs texts under names. -/
def installAll (d : Disk) (files : List (String × String)) : Option Disk :=
  files.foldlM (fun d f => install d ⟨f.1⟩ (.text f.2)) d

theorem IsPlain.installAll (hp : d.IsPlain) {files : List (String × String)}
    (h : d.installAll files = some d') : d'.IsPlain := by
  induction files generalizing d with
  | nil => exact Option.some.inj h ▸ hp
  | cons f files ih =>
    rw [Disk.installAll, List.foldlM_cons] at h
    obtain ⟨d₁, hd, h⟩ := Option.bind_eq_some_iff.mp h
    exact ih (hp.install hd) h

/-- The disk that holds texts under names, or an empty one if it cannot. -/
def ofTexts (files : List (String × String)) : Disk := (empty.installAll files).getD empty

theorem isPlain_ofTexts (files : List (String × String)) : (ofTexts files).IsPlain := by
  rw [ofTexts]
  cases h : empty.installAll files with
  | none => exact isPlain_empty
  | some d => exact isPlain_empty.installAll h

end Disk

end EnumCatalog
