import EnumCatalog.Proofs.DiskGrowth

/-!
# Directories that are made, files that are written

Making a directory finds where it is to be, without the slashes at the end of its name, and puts it
there; writing a file finds where it is to be and puts it there. The disk grows by that, and the name
then leads to what has been put there (`Disk.makeDirectory_spec`, `Disk.write_spec`). All the
directories that have been made are there on a disk that has grown since, so making them again
changes nothing (`Disk.makeDirectories_again`).
-/

set_option autoImplicit false

namespace EnumCatalog

namespace Disk

variable {d d' d₁ d₂ : Disk} {a l : Location} {p : FsPath}

/-! ## 1. Making directories -/

/-- Slashes at the end of a directory's name make no difference. -/
theorem walk_append_fillers {jump : Location → List String → Option Location} {k : Nat}
    (hl : d.sight? l = some .directory)
    (hjump : ∀ here pieces, jump here pieces = some l →
      jump here (pieces ++ List.replicate k "") = some l)
    {here : Location} {pieces : List String} (h : walk d .follow jump here pieces = some l) :
    walk d .follow jump here (pieces ++ List.replicate k "") = some l := by
  rw [walk_eq_some_iff] at h ⊢
  -- Along the steps of the look-up. Only where it is done or follows a link there is something to
  -- show.
  induction h with
  | done =>
    rw [List.nil_append]
    clear hjump
    induction k with
    | zero => exact .done
    | succ k ih => exact .filler (Or.inl rfl) ih
  | filler hpiece _ ih => exact .filler hpiece ih
  | up hhere _ ih => exact .up hhere ih
  | directory hpiece hs _ ih => exact .directory hpiece hs ih
  | file _ hs heq =>
    rw [heq, hl] at hs
    cases hs
  | keep _ _ hlast => cases hlast
  | follow hpiece hs _ htarget hj =>
    have hj' := hjump _ _ hj
    rw [List.append_assoc] at hj'
    exact .follow hpiece hs (fun _ => by decide) htarget hj'
  | create _ _ hlast => cases hlast

theorem walkWithin_append_fillers {k : Nat} (hl : d.sight? l = some .directory) (n : Nat)
    {here : Location} {pieces : List String} (h : walkWithin d .follow n here pieces = some l) :
    walkWithin d .follow n here (pieces ++ List.replicate k "") = some l := by
  induction n generalizing here pieces with
  | zero => exact walk_append_fillers hl (fun _ _ hj => by cases hj) h
  | succ n ih => exact walk_append_fillers hl (fun _ _ hj => ih hj) h

end Disk

/-- A name is what is left of it without the slashes at its end, and those slashes. -/
theorem FsPath.exists_trimmed (p : FsPath) :
    ∃ k, p.text.toList = p.trimmed.text.toList ++ List.replicate k '/' := by
  obtain ⟨slashes, hslashes⟩ : ∃ slashes,
      slashes = p.text.toList.reverse.takeWhile (· == '/') := ⟨_, rfl⟩
  have hall : slashes = List.replicate slashes.length '/' := by
    refine List.eq_replicate_of_mem fun c hc => ?_
    rw [hslashes] at hc
    exact beq_iff_eq.mp (List.all_eq_true.mp List.all_takeWhile c hc)
  have hsplit := List.takeWhile_append_dropWhile (p := (· == '/')) (l := p.text.toList.reverse)
  rw [← hslashes] at hsplit
  refine ⟨slashes.length, ?_⟩
  rw [trimmed, String.toList_ofList, ← List.reverse_replicate, ← hall, ← List.reverse_append, hsplit,
    List.reverse_reverse]

theorem FsPath.pieces_append_slashes (cs : List Char) (k : Nat) :
    pieces (cs ++ List.replicate k '/') = pieces cs ++ List.replicate k [] := by
  induction k generalizing cs with
  | zero => rw [List.replicate_zero, List.append_nil, List.replicate_zero, List.append_nil]
  | succ k ih =>
    have hsnoc : cs ++ List.replicate (k + 1) '/' = cs ++ List.replicate k '/' ++ '/' :: [] := by
      rw [List.replicate_succ', List.append_assoc]
    rw [hsnoc, pieces_append_slash, ih, List.replicate_succ', List.append_assoc]
    rfl

namespace Disk

variable {d d' d₁ d₂ : Disk} {a l : Location} {p : FsPath}

theorem canonical?_of_trimmed (hl : d.sight? l = some .directory)
    (h : d.canonical? p.trimmed = some l) : d.canonical? p = some l := by
  obtain ⟨k, hk⟩ := p.exists_trimmed
  have hpieces : piecesOf p = piecesOf p.trimmed ++ List.replicate k "" := by
    rw [piecesOf, hk, FsPath.pieces_append_slashes, List.map_append, List.map_replicate]
    rfl
  rw [canonical?, locate?] at h ⊢
  split at h
  case isTrue => cases h
  case isFalse hcond =>
    rw [Bool.or_eq_true, not_or] at hcond
    have hne : p.trimmed.text.toList ≠ [] := fun hnil =>
      hcond.1 (String.isEmpty_iff.mpr (String.toList_eq_nil_iff.mp hnil))
    have habs : p.isAbsolute = p.trimmed.isAbsolute := by
      rw [FsPath.isAbsolute, FsPath.isAbsolute, hk, List.head?_append_of_ne_nil _ hne]
    have htext : ¬ p.text.isEmpty = true := by
      intro hempty
      rw [String.isEmpty_iff.mp hempty] at hk
      exact hne (List.append_eq_nil_iff.mp hk.symm).1
    rw [if_neg (by rw [habs, Bool.or_eq_true, not_or]; exact ⟨htext, hcond.2⟩), hpieces]
    exact walkWithin_append_fillers hl maxLinks h

/-- Making a directory changes nothing if it is there, and else puts it where its name leads then. -/
theorem makeDirectory_cases (h : d.makeDirectory p = some d') :
    (d.isDirectory p = true ∧ d' = d) ∨
      ∃ l, d.sight? l = none ∧ d.setAt l (.directory []) = some d' ∧ d'.canonical? p = some l := by
  rw [makeDirectory] at h
  split at h
  case isTrue hdir => exact Or.inl ⟨hdir, (Option.some.inj h).symm⟩
  case isFalse =>
    obtain ⟨l, hl, h⟩ := Option.bind_eq_some_iff.mp h
    split at h
    case isTrue => cases h
    case isFalse hnone =>
    have hfree : d.sight? l = none := by
      rw [sight?, Option.not_isSome_iff_eq_none.mp hnone]
      rfl
    have hgrows := Grows.of_directory hfree h l
    have hdir : d'.sight? l = some .directory := by
      rw [sight?_setAt Entries.at?_directory_nil (Or.inl hfree) h, if_pos rfl]
      rfl
    have hcanon : d'.canonical? p.trimmed = some l := by
      rw [Option.orElse_eq_orElse, Option.orElse_eq_or, Option.or_eq_some_iff] at hl
      rcases hl with hl | ⟨-, hl⟩
      · exact hgrows.canonical?_of_locate? (Or.inr (Or.inl hdir)) hl
      · exact hgrows.canonical?_of_locate? (Or.inr (Or.inl hdir)) hl
    exact Or.inr ⟨l, hfree, h, canonical?_of_trimmed hdir hcanon⟩

/-- A directory that is made is there afterwards, and all else that was there. -/
theorem makeDirectory_spec (h : d.makeDirectory p = some d') (a : Location) :
    d.Adds a d' ∧ d'.isDirectory p = true := by
  rcases makeDirectory_cases h with ⟨hdir, rfl⟩ | ⟨l, hfree, hset, hcanon⟩
  · exact ⟨.refl a d', hdir⟩
  · have hdir : d'.sight? l = some .directory := by
      rw [sight?_setAt Entries.at?_directory_nil (Or.inl hfree) hset, if_pos rfl]
      rfl
    exact ⟨.of_directory (fun hp => hp.makeDirectory h) hfree hset a,
      isDirectory_iff.mpr ⟨l, hcanon, hdir⟩⟩

theorem makeDirectories_spec (h : d.makeDirectories p = some d') (a : Location) :
    d.Adds a d' ∧ ∀ q ∈ directoriesTo p, d'.isDirectory q = true := by
  rw [makeDirectories] at h
  generalize directoriesTo p = ps at h ⊢
  induction ps generalizing d with
  | nil =>
    obtain rfl := Option.some.inj h
    exact ⟨.refl a d, fun _ hq => (List.not_mem_nil hq).elim⟩
  | cons q ps ih =>
    rw [List.foldlM_cons] at h
    obtain ⟨d₁, hd, h⟩ := Option.bind_eq_some_iff.mp h
    obtain ⟨hadds, hq⟩ := makeDirectory_spec hd a
    obtain ⟨hadds', hps⟩ := ih h
    exact ⟨hadds.trans hadds', List.forall_mem_cons.mpr ⟨hadds'.grows.isDirectory hq, hps⟩⟩

/-- Directories that are there need not be made. -/
theorem makeDirectories_of_isDirectory (h : ∀ q ∈ directoriesTo p, d.isDirectory q = true) :
    d.makeDirectories p = some d := by
  rw [makeDirectories]
  generalize directoriesTo p = ps at h ⊢
  induction ps with
  | nil => rfl
  | cons q ps ih =>
    rw [List.forall_mem_cons] at h
    rw [List.foldlM_cons, makeDirectory, if_pos h.1]
    exact ih h.2

/-- Making directories again, on a disk that has grown, changes nothing. -/
theorem makeDirectories_again (h : d.makeDirectories p = some d₁) (hgrows : d₁.Grows a d₂) :
    d₂.makeDirectories p = some d₂ :=
  makeDirectories_of_isDirectory fun q hq =>
    hgrows.isDirectory ((makeDirectories_spec h a).2 q hq)

/-! ## 2. Writing a file -/

/-- From a directory on, a look-up for something that may not be there does not end at a link. -/
theorem walk_create_ne_link {jump : Location → List String → Option Location}
    (hjump : ∀ here pieces l, d.sight? here = some .directory → jump here pieces = some l →
      ∀ target, d.sight? l ≠ some (.link target))
    {here : Location} {pieces : List String} (hhere : d.sight? here = some .directory)
    (h : walk d .create jump here pieces = some l) (target : FsPath) :
    d.sight? l ≠ some (.link target) := by
  rw [walk_eq_some_iff] at h
  induction h with
  | done => simp [hhere]
  | filler _ _ ih => exact ih hhere
  | up _ _ ih => exact ih (sight?_dropLast hhere)
  | directory _ hs _ ih => exact ih hs
  | file _ hs heq => simp [← heq, hs]
  | keep _ _ hlast => cases hlast
  | follow _ _ _ _ hj => exact hjump _ _ _ hhere hj target
  | create _ hs _ heq => simp [← heq, hs]

theorem locate?_create_ne_link (h : d.locate? .create p = some l) (target : FsPath) :
    d.sight? l ≠ some (.link target) := by
  have hwithin (n : Nat) : ∀ here pieces l, d.sight? here = some .directory →
      walkWithin d .create n here pieces = some l → ∀ target, d.sight? l ≠ some (.link target) := by
    induction n with
    | zero =>
      exact fun _ _ _ hhere hw => walk_create_ne_link (fun _ _ _ _ hj => by cases hj) hhere hw
    | succ n ih => exact fun _ _ _ hhere hw => walk_create_ne_link ih hhere hw
  rw [locate?] at h
  split at h
  · cases h
  · exact hwithin maxLinks _ _ l d.sight?_root h target

/-- Writing puts a file where there is nothing or a file. -/
theorem write_cases {c : Content} (h : d.write p c = some d') :
    ∃ a, d.locate? .create p = some a ∧ d.IsFree a ∧ d.setAt a (.file c) = some d' := by
  obtain ⟨a, ha, h⟩ := Option.bind_eq_some_iff.mp h
  have hlink := locate?_create_ne_link ha
  refine ⟨a, ha, ?_⟩
  unfold IsFree sight?
  unfold sight? at hlink
  cases hn : d.nodeAt? a with
  | none =>
    rw [hn] at h
    exact ⟨Or.inl rfl, h⟩
  | some n =>
    rw [hn] at h hlink
    cases n with
    | file c => exact ⟨Or.inr ⟨c, rfl⟩, h⟩
    | directory es => cases h
    | link target => exact absurd rfl (hlink target)

/-- A file that is written can be read afterwards, and all else that was there is there. -/
theorem write_spec {c : Content} (h : d.write p c = some d') :
    ∃ a, d.Adds a d' ∧ d'.canonical? p = some a ∧ d'.sight? a = some (.file c) := by
  obtain ⟨a, ha, hfree, hset⟩ := write_cases h
  have hadds := Adds.of_file (fun hp => hp.write h) hfree hset
  have hfile : d'.sight? a = some (.file c) := by
    rw [sight?_setAt (n := .file c) (fun _ _ => rfl) hfree hset, if_pos rfl]
    rfl
  exact ⟨a, hadds, hadds.grows.canonical?_of_locate? (Or.inr (Or.inr ⟨c, hfile⟩)) ha, hfile⟩

end Disk

end EnumCatalog
