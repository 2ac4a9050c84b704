import EnumCatalog.Proofs.PlainDisk

/-!
# The files of a disk

The names of the files below a directory are made up from the directory's name on the way down. Kept
together with the locations (`Disk.located`), they tell what a name made up that way leads to: the
location of its file (`canonical?_of_mem_located`). Different names lead to different files.

Writing a file anew leaves the list as it is, and removing one takes its name away and nothing else
(`Edit.located_eq`).
-/

set_option autoImplicit false

namespace EnumCatalog

/-! ## 1. Pieces of names -/

namespace FsPath

theorem pieces_ne_nil (cs : List Char) : pieces cs ≠ [] := by
  cases cs with
  | nil => exact List.cons_ne_nil _ _
  | cons c cs =>
    rw [pieces]
    split
    · exact List.cons_ne_nil _ _
    · split <;> exact List.cons_ne_nil _ _

theorem pieces_append_slash (as bs : List Char) :
    pieces (as ++ '/' :: bs) = pieces as ++ pieces bs := by
  induction as with
  | nil => rfl
  | cons a as ih =>
    rw [List.cons_append, pieces, pieces, ih]
    split
    · rfl
    · cases h : pieces as with
      | nil => exact absurd h (pieces_ne_nil as)
      | cons p ps => rfl

theorem pieces_of_not_mem {cs : List Char} (h : '/' ∉ cs) : pieces cs = [cs] := by
  induction cs with
  | nil => rfl
  | cons c cs ih =>
    rw [List.mem_cons, not_or] at h
    rw [pieces, if_neg (by simpa using fun hc => h.1 hc.symm), ih h.2]

theorem isAbsolute_of_not_mem {name : String} (h : '/' ∉ name.toList) :
    (⟨name⟩ : FsPath).isAbsolute = false := by
  rw [isAbsolute, Bool.eq_false_iff]
  intro hhead
  exact h (List.mem_of_head? (by simpa using hhead))

/-- A name that is made up from a directory goes on behind a slash, which may be there already. -/
theorem text_join_of_relative {dir q : FsPath} (hdir : dir.text ≠ "") (hq : q.isAbsolute = false) :
    (dir.join q).isAbsolute = dir.isAbsolute ∧
      ∃ front : List Char, (dir.join q).text.toList = front ++ '/' :: q.text.toList ∧
        (dir.text.toList = front ∨ dir.text.toList = front ++ ['/']) := by
  have hempty : dir.text.isEmpty = false := String.isEmpty_eq_false_iff.mpr hdir
  have hchars : dir.text.toList ≠ [] := mt String.toList_eq_nil_iff.mp hdir
  rw [join, hq, hempty, Bool.false_or, if_neg Bool.false_ne_true]
  split
  · rename_i hlast
    obtain ⟨front, hfront⟩ := List.getLast?_eq_some_iff.mp (by simpa using hlast)
    refine ⟨?_, front, by simp [hfront], Or.inr hfront⟩
    rw [isAbsolute, isAbsolute, String.toList_append, List.head?_append_of_ne_nil _ hchars]
  · refine ⟨?_, dir.text.toList, by simp, Or.inl rfl⟩
    rw [isAbsolute, isAbsolute, String.toList_append, String.toList_append, List.append_assoc,
      List.head?_append_of_ne_nil _ hchars]

theorem text_join_of_relative_ne {dir q : FsPath} (hdir : dir.text ≠ "")
    (hq : q.isAbsolute = false) : (dir.join q).text ≠ "" := by
  obtain ⟨-, front, hfront, -⟩ := text_join_of_relative hdir hq
  intro hempty
  rw [hempty] at hfront
  exact absurd hfront.symm (by simp)

/-- An entry's name is such a name. -/
theorem text_join {dir : FsPath} {name : String} (hdir : dir.text ≠ "")
    (hname : '/' ∉ name.toList) :
    (dir.join ⟨name⟩).isAbsolute = dir.isAbsolute ∧
      ∃ front : List Char, (dir.join ⟨name⟩).text.toList = front ++ '/' :: name.toList ∧
        (dir.text.toList = front ∨ dir.text.toList = front ++ ['/']) :=
  text_join_of_relative hdir (isAbsolute_of_not_mem hname)

end FsPath

/-! ## 2. A name made up of a directory's and an entry's -/

namespace Disk

variable {d d' : Disk} {r : Option Content} {loc : Location}

/-- Past a directory, a look-up goes on from there. -/
theorem walk_append (hp : d.IsPlain) {jump : Location → List String → Option Location}
    {here l : Location} {pieces rest : List String} (hl : d.view l = some none)
    (h : walk d .follow jump here pieces = some l) :
    walk d .follow jump here (pieces ++ rest) = walk d .follow jump l rest := by
  induction pieces generalizing here with
  | nil =>
    rw [walk, Option.some.injEq] at h
    rw [List.nil_append, h]
  | cons piece pieces ih =>
    rw [walk_cons hp] at h
    rw [List.cons_append, walk_cons hp]
    split at h
    case isTrue hf => rw [if_pos hf]; exact ih h
    case isFalse hf =>
    rw [if_neg hf]
    split at h
    case isTrue hu =>
      rw [if_pos hu]
      split at h
      case isTrue => cases h
      case isFalse he => rw [if_neg he]; exact ih h
    case isFalse hu =>
    rw [if_neg hu]
    split at h
    case h_1 => exact ih h
    -- A file ends the look-up, and what it leads to is a directory.
    case h_2 hv =>
      split at h
      · rw [Option.some.inj h, hl] at hv
        cases hv
      · cases h
    case h_3 => simp at h

/-- A slash at the end makes no difference to the name of a directory. -/
theorem walk_append_nil (hp : d.IsPlain) {jump : Location → List String → Option Location}
    {here l : Location} {pieces rest : List String}
    (h : walk d .follow jump here (pieces ++ [""]) = some l) :
    walk d .follow jump here (pieces ++ rest) = walk d .follow jump l rest := by
  -- By the pieces before the slash. The empty piece behind it is passed over.
  induction pieces generalizing here with
  | nil =>
    rw [List.nil_append, walk, if_pos (by decide), walk, Option.some.injEq] at h
    rw [List.nil_append, h]
  | cons piece pieces ih =>
    rw [List.cons_append, walk_cons hp] at h
    rw [List.cons_append, walk_cons hp]
    split at h
    case isTrue hf => rw [if_pos hf]; exact ih h
    case isFalse hf =>
    rw [if_neg hf]
    split at h
    case isTrue hu =>
      rw [if_pos hu]
      split at h
      case isTrue => cases h
      case isFalse he => rw [if_neg he]; exact ih h
    case isFalse hu =>
    rw [if_neg hu]
    split at h
    case h_1 => exact ih h
    case h_2 => simp at h
    case h_3 => simp at h

/-- The name made up of a directory's and of an entry's leads to the entry. -/
theorem canonical?_join (hp : d.IsPlain) {dir : FsPath} {l : Location} {es : Entries}
    {name : String} {n : Node} (hdir : d.canonical? dir = some l)
    (hl : d.nodeAt? l = some (.directory es)) (hn : es.get? name = some n)
    (hname : IsEntryName name) : d.canonical? (dir.join ⟨name⟩) = some (l ++ [name]) := by
  obtain ⟨hne, hdot, hup, hslash⟩ := hname
  rw [canonical?, locate?_of_isPlain hp] at hdir
  split at hdir
  case isTrue => cases hdir
  case isFalse hcond =>
  rw [Bool.or_eq_true, not_or] at hcond
  have hview : d.view l = some none := by rw [view, hl]; rfl
  have htext : dir.text ≠ "" := fun h => hcond.1 (String.isEmpty_iff.mpr h)
  obtain ⟨habs, front, hfront, hdirText⟩ := FsPath.text_join htext hslash
  -- The look-up reaches the directory by the pieces in front, and then reads the entry's name.
  have hwalk : walk d .follow (fun _ _ => none) []
      ((FsPath.pieces front).map String.ofList ++ [name]) =
        walk d .follow (fun _ _ => none) l [name] := by
    rw [piecesOf] at hdir
    rcases hdirText with h | h
    · rw [h] at hdir
      exact walk_append hp hview hdir
    · rw [h, FsPath.pieces_append_slash, List.map_append] at hdir
      exact walk_append_nil hp hdir
  have hentry : walk d .follow (fun _ _ => none) l [name] = some (l ++ [name]) := by
    have hthere : d.nodeAt? (l ++ [name]) = some n := by
      rw [nodeAt?_append, hl]
      exact hn
    have hsees : (d.view (l ++ [name])).isSome = true := by rw [view, hthere]; rfl
    rw [walk_cons hp, if_neg (by simp [hne, hdot]), if_neg (by simp [hup])]
    cases hv : d.view (l ++ [name]) with
    | none => rw [hv] at hsees; cases hsees
    | some v => cases v <;> rfl
  have hguard : ((dir.join ⟨name⟩).text.isEmpty || (dir.join ⟨name⟩).isAbsolute) = false := by
    rw [habs, Bool.or_eq_false_iff, String.isEmpty_eq_false_iff]
    exact ⟨FsPath.text_join_of_relative_ne htext (FsPath.isAbsolute_of_not_mem hslash),
      Bool.eq_false_iff.mpr hcond.2⟩
  rw [canonical?, locate?_of_isPlain hp, hguard, if_neg Bool.false_ne_true, piecesOf, hfront,
    FsPath.pieces_append_slash, FsPath.pieces_of_not_mem hslash, List.map_append]
  rw [List.map_singleton, String.ofList_toList]
  exact hwalk.trans hentry

/-! ## 3. Files with their locations -/

mutual

/-- The files at and below a node with a name and a location, each with its name and its location.
-/
def locatedAt (p : FsPath) (l : Location) : Node → List (FsPath × Location)
  | .file _ => [(p, l)]
  | .directory es => locatedIn p l es
  | .link _ => []

/-- The files in and below the entries of a directory with a name and a location. -/
def locatedIn (dir : FsPath) (l : Location) : List (String × Node) → List (FsPath × Location)
  | [] => []
  | (name, n) :: rest => locatedAt (dir.join ⟨name⟩) (l ++ [name]) n ++ locatedIn dir l rest

end

/-- The files below a directory with their locations. -/
def located (d : Disk) (dir : FsPath) : List (FsPath × Location) :=
  match d.canonical? dir with
  | some l => ((d.nodeAt? l).map (locatedAt dir l)).getD []
  | none => []

mutual

theorem map_fst_locatedAt (p : FsPath) (l : Location) (n : Node) :
    (locatedAt p l n).map Prod.fst = filesAt p n := by
  cases n with
  | file c => rw [locatedAt, filesAt, List.map_singleton]
  | directory es => rw [locatedAt, filesAt, map_fst_locatedIn]
  | link target => rw [locatedAt, filesAt, List.map_nil]

theorem map_fst_locatedIn (dir : FsPath) (l : Location) (es : List (String × Node)) :
    (locatedIn dir l es).map Prod.fst = filesIn dir es := by
  cases es with
  | nil => rw [locatedIn, filesIn, List.map_nil]
  | cons e es =>
    obtain ⟨name, n⟩ := e
    rw [locatedIn, filesIn, List.map_append, map_fst_locatedAt, map_fst_locatedIn]

end

theorem map_fst_located (d : Disk) (dir : FsPath) :
    (d.located dir).map Prod.fst = d.filesUnder dir := by
  rw [located, filesUnder, get?]
  cases d.canonical? dir with
  | none => rfl
  | some l =>
    simp only [Option.bind_eq_bind, Option.bind_some]
    cases d.nodeAt? l with
    | none => rfl
    | some n => exact map_fst_locatedAt dir l n

theorem located_eq {dir : FsPath} {l : Location} {n : Node} (hp : d.canonical? dir = some l)
    (hl : d.nodeAt? l = some n) : d.located dir = locatedAt dir l n := by
  simp only [located, hp, hl, Option.map_some, Option.getD_some]

theorem located_eq_nil_or (d : Disk) (dir : FsPath) :
    d.located dir = [] ∨ ∃ l n, d.canonical? dir = some l ∧ d.nodeAt? l = some n ∧
      d.located dir = locatedAt dir l n := by
  cases hp : d.canonical? dir with
  | none => exact Or.inl (by simp only [located, hp])
  | some l =>
    cases hl : d.nodeAt? l with
    | none => exact Or.inl (by simp only [located, hp, hl, Option.map_none, Option.getD_none])
    | some n => exact Or.inr ⟨l, n, rfl, hl, located_eq hp hl⟩

theorem exists_entries_of_isDirectory {dir : FsPath} {root : Location}
    (hroot : d.canonical? dir = some root) (hdir : d.isDirectory dir = true) :
    ∃ es, d.nodeAt? root = some (.directory es) := by
  simp only [isDirectory, get?, hroot, Option.bind_eq_bind, Option.bind_some] at hdir
  cases hn : d.nodeAt? root with
  | none => rw [hn] at hdir; cases hdir
  | some n =>
    rw [hn] at hdir
    cases n with
    | directory es => exact ⟨es, rfl⟩
    | _ => cases hdir

theorem locatedIn_append (dir : FsPath) (l : Location) (as bs : Entries) :
    locatedIn dir l (as ++ bs) = locatedIn dir l as ++ locatedIn dir l bs := by
  induction as with
  | nil => rw [List.nil_append, locatedIn, List.nil_append]
  | cons e as ih =>
    obtain ⟨name, n⟩ := e
    rw [List.cons_append, locatedIn, locatedIn, ih, List.append_assoc]

mutual

/-- A file that is listed is at its location, and its location is below. -/
theorem exists_of_mem_locatedAt {p f : FsPath} {l m : Location} {n : Node} (hp : n.IsPlain)
    (h : (f, m) ∈ locatedAt p l n) : ∃ s c, m = l ++ s ∧ n.at? s = some (.file c) := by
  cases n with
  | file c =>
    rw [locatedAt, List.mem_singleton] at h
    cases h
    exact ⟨[], c, (List.append_nil l).symm, rfl⟩
  | directory es =>
    rw [locatedAt] at h
    rw [Node.IsPlain] at hp
    obtain ⟨name, s, c, hm, hat⟩ := exists_of_mem_locatedIn hp h
    exact ⟨name :: s, c, hm, hat⟩
  | link target =>
    rw [locatedAt] at h
    cases h

theorem exists_of_mem_locatedIn {dir f : FsPath} {l m : Location} {es : List (String × Node)}
    (hp : Entries.IsPlain es) (h : (f, m) ∈ locatedIn dir l es) :
    ∃ name s c, m = l ++ name :: s ∧ Entries.nodeAt? es (name :: s) = some (.file c) := by
  cases es with
  | nil =>
    rw [locatedIn] at h
    cases h
  | cons e es =>
    obtain ⟨name, n⟩ := e
    rw [Entries.IsPlain] at hp
    obtain ⟨-, hn, hlt, hes⟩ := hp
    rw [locatedIn, List.mem_append] at h
    -- A later entry has another name than the first, since entries are in the order of their names.
    rcases h with h | h
    · obtain ⟨s, c, hm, hat⟩ := exists_of_mem_locatedAt hn h
      refine ⟨name, s, c, by rw [hm, List.append_assoc, List.singleton_append], ?_⟩
      rw [Entries.nodeAt?_cons, Entries.get?, List.lookup_cons, beq_self_eq_true]
      exact hat
    · obtain ⟨other, s, c, hm, hat⟩ := exists_of_mem_locatedIn hes h
      refine ⟨other, s, c, hm, ?_⟩
      rw [Entries.nodeAt?_cons] at hat ⊢
      obtain ⟨k, hk, -⟩ := Option.bind_eq_some_iff.mp hat
      obtain ⟨as, bs, hsplit⟩ := Entries.exists_split_of_get? hk
      have hne : (other == name) = false := by
        rw [beq_eq_false_iff_ne]
        rintro rfl
        exact String.lt_irrefl _ (hlt (other, k) (hsplit ▸ by simp))
      rw [Entries.get?, List.lookup_cons, hne]
      exact hat

end

mutual

/-- On a plain disk no location is listed twice. -/
theorem nodup_locatedAt (p : FsPath) (l : Location) {n : Node} (hp : n.IsPlain) :
    ((locatedAt p l n).map Prod.snd).Nodup := by
  cases n with
  | file c =>
    rw [locatedAt]
    exact List.nodup_singleton l
  | directory es =>
    rw [locatedAt]
    rw [Node.IsPlain] at hp
    exact nodup_locatedIn p l hp
  | link target =>
    rw [locatedAt]
    exact List.nodup_nil

theorem nodup_locatedIn (dir : FsPath) (l : Location) {es : List (String × Node)}
    (hp : Entries.IsPlain es) : ((locatedIn dir l es).map Prod.snd).Nodup := by
  cases es with
  | nil =>
    rw [locatedIn]
    exact List.nodup_nil
  | cons e es =>
    obtain ⟨name, n⟩ := e
    rw [Entries.IsPlain] at hp
    obtain ⟨-, hn, hlt, hes⟩ := hp
    rw [locatedIn, List.map_append]
    refine List.Nodup.append (nodup_locatedAt _ _ hn) (nodup_locatedIn dir l hes) ?_
    -- The locations differ in the first name below.
    intro m hm hm'
    obtain ⟨⟨f, _⟩, hf, rfl⟩ := List.mem_map.mp hm
    obtain ⟨⟨g, _⟩, hg, heq⟩ := List.mem_map.mp hm'
    obtain ⟨s, c, h1, -⟩ := exists_of_mem_locatedAt hn hf
    obtain ⟨other, s', c', h2, hat⟩ := exists_of_mem_locatedIn hes hg
    simp only at heq h1
    rw [Entries.nodeAt?_cons] at hat
    obtain ⟨k, hk, -⟩ := Option.bind_eq_some_iff.mp hat
    obtain ⟨as, bs, hsplit⟩ := Entries.exists_split_of_get? hk
    rw [← heq, h2, List.append_assoc, List.append_cancel_left_eq, List.singleton_append,
      List.cons.injEq] at h1
    have hmem : (other, k) ∈ es := hsplit ▸ by simp
    rw [h1.1] at hmem
    exact String.lt_irrefl _ (hlt _ hmem)

end

mutual

/-- A name made up on the way down leads to its file. -/
theorem canonical?_of_mem_locatedAt {p f : FsPath} {l m : Location} {n : Node} (hd : d.IsPlain)
    (hp : d.canonical? p = some l) (hl : d.nodeAt? l = some n)
    (h : (f, m) ∈ locatedAt p l n) : d.canonical? f = some m := by
  cases n with
  | file c =>
    rw [locatedAt, List.mem_singleton] at h
    cases h
    exact hp
  | directory es =>
    rw [locatedAt] at h
    have hes := Entries.IsPlain.nodeAt? hd hl
    rw [Node.IsPlain] at hes
    exact canonical?_of_mem_locatedIn hd hp hl [] es rfl hes h
  | link target =>
    rw [locatedAt] at h
    cases h

theorem canonical?_of_mem_locatedIn {dir f : FsPath} {l m : Location} {all : Entries}
    (hd : d.IsPlain) (hp : d.canonical? dir = some l) (hl : d.nodeAt? l = some (.directory all))
    (before es : List (String × Node)) (hall : all = before ++ es) (hes : Entries.IsPlain all)
    (h : (f, m) ∈ locatedIn dir l es) : d.canonical? f = some m := by
  cases es with
  | nil =>
    rw [locatedIn] at h
    cases h
  | cons e es =>
    obtain ⟨name, n⟩ := e
    rw [locatedIn, List.mem_append] at h
    rcases h with h | h
    · subst hall
      obtain ⟨has, -, hname, -⟩ := hes.split
      have hget : Entries.get? (before ++ (name, n) :: es) name = some n := Entries.get?_split has
      have hn : d.nodeAt? (l ++ [name]) = some n := by
        rw [nodeAt?_append, hl]
        exact hget
      exact canonical?_of_mem_locatedAt hd (canonical?_join hd hp hl hget hname) hn h
    · exact canonical?_of_mem_locatedIn hd hp hl (before ++ [(name, n)]) es (by simp [hall]) hes h

end

/-- A name that is listed leads to the location it is listed with. -/
theorem canonical?_of_mem_located (hd : d.IsPlain) {dir f : FsPath} {m : Location}
    (h : (f, m) ∈ d.located dir) : d.canonical? f = some m := by
  rcases d.located_eq_nil_or dir with hnil | ⟨l, n, hp, hl, heq⟩
  · rw [hnil] at h
    cases h
  · rw [heq] at h
    exact canonical?_of_mem_locatedAt hd hp hl h

theorem nodup_located (hd : d.IsPlain) (dir : FsPath) : ((d.located dir).map Prod.snd).Nodup := by
  rcases d.located_eq_nil_or dir with hnil | ⟨l, n, -, hl, heq⟩
  · rw [hnil]
    exact List.nodup_nil
  · rw [heq]
    exact nodup_locatedAt dir l (Entries.IsPlain.nodeAt? hd hl)

/-! ## 4. The files after a change -/

mutual

/-- Every file is listed. -/
theorem mem_locatedAt_of_at? (p : FsPath) (l : Location) {n : Node} {s : Location} {c : Content}
    (h : n.at? s = some (.file c)) : l ++ s ∈ (locatedAt p l n).map Prod.snd := by
  cases n with
  | file _ =>
    cases s with
    | nil =>
      rw [locatedAt, List.append_nil]
      exact List.mem_singleton_self l
    | cons name s => cases h
  | directory es =>
    cases s with
    | nil => cases h
    | cons name s =>
      rw [locatedAt]
      exact mem_locatedIn_of_nodeAt? p l h
  | link target => cases s <;> cases h

theorem mem_locatedIn_of_nodeAt? (dir : FsPath) (l : Location) {es : List (String × Node)}
    {name : String} {s : Location} {c : Content}
    (h : Entries.nodeAt? es (name :: s) = some (.file c)) :
    l ++ name :: s ∈ (locatedIn dir l es).map Prod.snd := by
  cases es with
  | nil =>
    rw [Entries.nodeAt?_cons] at h
    cases h
  | cons e es =>
    obtain ⟨other, n⟩ := e
    rw [locatedIn, List.map_append, List.mem_append]
    rw [Entries.nodeAt?_cons, Entries.get?, List.lookup_cons] at h
    cases hne : name == other with
    | true =>
      rw [hne] at h
      rw [beq_iff_eq] at hne
      have hmem := mem_locatedAt_of_at? (dir.join ⟨other⟩) (l ++ [other]) h
      rw [List.append_assoc, List.singleton_append] at hmem
      rw [hne]
      exact Or.inl hmem
    | false =>
      rw [hne] at h
      right
      exact mem_locatedIn_of_nodeAt? dir l (by rw [Entries.nodeAt?_cons]; exact h)

end

end Disk

namespace Entries

variable {r : Option Content} {loc : Location} {es es' : Entries}

/-- Beside the way to a file nothing is listed with its location. -/
theorem filter_locatedIn_of_ne {as : Entries} {name : String} {loc l : Location} (dir : FsPath)
    (r : Option Content) (hp : IsPlain as) (has : ∀ e ∈ as, e.1 ≠ name) :
    (Disk.locatedIn dir l as).filter (fun x => r.isSome || x.2 != l ++ name :: loc) =
      Disk.locatedIn dir l as := by
  rw [List.filter_eq_self]
  rintro ⟨f, m⟩ hf
  obtain ⟨other, s, c, hm, hat⟩ := Disk.exists_of_mem_locatedIn hp hf
  rw [nodeAt?_cons] at hat
  obtain ⟨k, hk, -⟩ := Option.bind_eq_some_iff.mp hat
  obtain ⟨xs, ys, hsplit⟩ := exists_split_of_get? hk
  have hne : m ≠ l ++ name :: loc := by
    rw [hm, ne_eq, List.append_cancel_left_eq, List.cons.injEq]
    exact fun heq => has (other, k) (hsplit ▸ by simp) heq.1
  simp [hne]

/-- On both sides of an entry nothing is listed with a location in it. -/
theorem IsPlain.filter_locatedIn {as bs : Entries} {name : String} {n : Node} {loc l : Location}
    (h : IsPlain (as ++ (name, n) :: bs)) (dir : FsPath) (r : Option Content) :
    (Disk.locatedIn dir l as).filter (fun x => r.isSome || x.2 != l ++ name :: loc) =
        Disk.locatedIn dir l as ∧
      (Disk.locatedIn dir l bs).filter (fun x => r.isSome || x.2 != l ++ name :: loc) =
        Disk.locatedIn dir l bs := by
  obtain ⟨has, hbs, -, -⟩ := h.split
  have hpas : IsPlain as := h.sublist (List.sublist_append_left _ _)
  have hpbs : IsPlain bs := h.sublist
    ((List.sublist_cons_self _ bs).trans (List.sublist_append_right as _))
  constructor
  · exact filter_locatedIn_of_ne dir r hpas fun e he heq => String.lt_irrefl _ (heq ▸ has e he)
  · exact filter_locatedIn_of_ne dir r hpbs fun e he heq => String.lt_irrefl _ (heq ▸ hbs e he)

/-- The files in entries after a change: all those before, without the one that went. -/
theorem Edit.locatedIn_eq (h : Edit r loc es es') (hp : IsPlain es) (dir : FsPath) (l : Location) :
    Disk.locatedIn dir l es' =
      (Disk.locatedIn dir l es).filter fun x => r.isSome || x.2 != l ++ loc := by
  induction h generalizing dir l with
  | here as bs name c =>
    obtain ⟨hfas, hfbs⟩ := hp.filter_locatedIn dir r
    rw [Disk.locatedIn_append, Disk.locatedIn_append, Disk.locatedIn_append, Disk.locatedIn,
      List.filter_append, List.filter_append, hfas, hfbs, List.append_assoc]
    congr 2
    cases r with
    | none => simp [Disk.locatedIn, Disk.locatedAt]
    | some new => simp [Disk.locatedIn, Disk.locatedAt]
  | @inside as bs name loc inner inner' _ ih =>
    have hinner := hp.split.2.2.2
    rw [Node.IsPlain] at hinner
    obtain ⟨hfas, hfbs⟩ := hp.filter_locatedIn dir r
    -- Within the directory, the locations go on behind its name.
    have hbelow := ih hinner (dir.join ⟨name⟩) (l ++ [name])
    rw [List.append_assoc, List.singleton_append] at hbelow
    rw [Disk.locatedIn_append, Disk.locatedIn_append, Disk.locatedIn, Disk.locatedIn,
      Disk.locatedAt, Disk.locatedAt, hbelow, List.filter_append, List.filter_append, hfas, hfbs]

end Entries

namespace Disk

variable {d d' : Disk} {r : Option Content} {loc : Location}

/-- Where something is after the change, there the file has not gone. -/
theorem Edit.isSome_or_ne (h : Edit r loc d d') (hp : d.IsPlain) {l : Location} {n : Node}
    (hn : d'.nodeAt? l = some n) : (r.isSome || l != loc) = true := by
  cases r with
  | some new => rfl
  | none =>
    rw [Option.isSome_none, Bool.false_or, bne_iff_ne]
    rintro rfl
    have hgone := Entries.Edit.nodeAt?_self h hp
    rw [← nodeAt?, hn] at hgone
    cases hgone

/-- What is listed after the change does not have the location of a file that went. -/
theorem Edit.filter_locatedAt (h : Edit r loc d d') (hp : d.IsPlain) (p : FsPath) {l : Location}
    {n : Node} (hn : d'.nodeAt? l = some n) :
    (locatedAt p l n).filter (fun x => r.isSome || x.2 != loc) = locatedAt p l n := by
  rw [List.filter_eq_self]
  rintro ⟨f, m⟩ hf
  obtain ⟨s, c, rfl, hat⟩ := exists_of_mem_locatedAt (Entries.IsPlain.nodeAt? (h.isPlain hp) hn) hf
  have hthere : d'.nodeAt? (l ++ s) = some (.file c) := by
    rw [nodeAt?_append, hn]
    exact hat
  exact h.isSome_or_ne hp hthere

/-- The files below a directory after a change: all those before, without the one that went. -/
theorem Edit.located_eq (h : Edit r loc d d') (hp : d.IsPlain) (dir : FsPath) :
    d'.located dir = (d.located dir).filter fun x => r.isSome || x.2 != loc := by
  have hcanon := h.canonical?_eq hp dir
  cases hdir : d.canonical? dir with
  | none =>
    rw [hdir] at hcanon
    simp only [located, hdir, hcanon, Option.filter_none, List.filter_nil]
  | some l =>
    rw [hdir, Option.filter_some] at hcanon
    rcases Entries.Edit.nodeAt?_cases h hp l with
      rfl | hsame | ⟨s, inner, inner', hloc, hedit, hin, hb, ha⟩
    -- The name of the file itself: it leads there still, or nowhere.
    · obtain ⟨c, hc⟩ := Entries.Edit.nodeAt?_before h hp
      have hafter := Entries.Edit.nodeAt?_self h hp
      rw [Disk.located_eq hdir hc, locatedAt]
      cases r with
      | none =>
        rw [if_neg (by simp)] at hcanon
        simp [located, hcanon]
      | some new =>
        rw [if_pos (by simp)] at hcanon
        rw [Disk.located_eq hcanon hafter, locatedAt]
        rfl
    -- A name that leads elsewhere.
    · have hsame : d'.nodeAt? l = d.nodeAt? l := hsame
      cases hn : d.nodeAt? l with
      | none =>
        have hnil : d.located dir = [] := by
          simp only [located, hdir, hn, Option.map_none, Option.getD_none]
        rw [hnil, List.filter_nil]
        split at hcanon
        · simp only [located, hcanon, hsame, hn, Option.map_none, Option.getD_none]
        · simp only [located, hcanon]
      | some n =>
        rw [hn] at hsame
        rw [if_pos (h.isSome_or_ne hp hsame)] at hcanon
        rw [Disk.located_eq hdir hn, h.filter_locatedAt hp dir hsame, Disk.located_eq hcanon hsame]
    -- A directory around the file.
    · rw [if_pos (h.isSome_or_ne hp ha)] at hcanon
      rw [Disk.located_eq hdir hb, Disk.located_eq hcanon ha, locatedAt, locatedAt,
        hedit.locatedIn_eq hin dir l, ← hloc]

end Disk

end EnumCatalog
