import EnumCatalog.Proofs.DiskChanges

/-!
# Disks that grow

Making directories and writing a file takes nothing away: what a disk has afterwards is what it had
before, and beyond that directories and the one file (`Disk.Grows`). Links may be on the disk, and
its directories need not be in order. On a plain disk no other file is listed afterwards than was
before, apart from that one (`Disk.Adds`).

A look-up asks of each node what it can see of it: that it is a directory, or which link it is, or
that it is a file (`Disk.sight?`). What it sees on its way decides where it ends (`Disk.Walks`). So a
name that leads to something leads there on a disk that has grown (`Disk.Grows.canonical?_eq`), and a
name that something is made under leads to what is made.
-/

set_option autoImplicit false

namespace EnumCatalog

/-! ## 1. What can be seen of a node -/

/-- What a look-up sees of a node: of a directory not what it holds. -/
inductive Sight where
  | file (c : Content)
  | directory
  | link (target : FsPath)

def Node.sight : Node → Sight
  | .file c => .file c
  | .directory _ => .directory
  | .link target => .link target

namespace Entries

theorem get?_set (es : Entries) (name other : String) (n : Node) :
    get? (set name n es) other = if other = name then some n else es.get? other := by
  have hcons (m : Node) (rest : Entries) : get? ((name, m) :: rest) other =
      if other = name then some m else get? rest other := by
    rw [get?, get?, List.lookup_cons]
    split <;> simp_all
  -- Entry by entry: the new one takes the place of its name or is put before the first greater one.
  induction es with
  | nil => exact hcons n []
  | cons e es ih =>
    obtain ⟨first, m⟩ := e
    rw [set]
    split
    case isTrue heq =>
      obtain rfl : first = name := beq_iff_eq.mp heq
      rw [hcons, hcons]
      split <;> rfl
    case isFalse hne =>
    split
    case isTrue => exact hcons n _
    case isFalse =>
      rw [get?, get?, List.lookup_cons, List.lookup_cons]
      split
      case h_1 hfirst =>
        obtain rfl : other = first := beq_iff_eq.mp hfirst
        rw [if_neg fun heq => hne (beq_iff_eq.mpr heq)]
      case h_2 => exact ih

/-- An empty directory holds nothing. -/
theorem at?_directory_nil (name : String) (rest : Location) :
    (Node.directory []).at? (name :: rest) = none := by
  rw [at?_directory, nodeAt?_cons]
  rfl

/-- Setting a node that holds nothing, where nothing or a file is, changes nothing elsewhere. -/
theorem sight_nodeAt?_updateAt {es es' : Entries} {dirs : Location} {last : String} {n : Node}
    (hn : ∀ name rest, n.at? (name :: rest) = none)
    (hfree : ∀ name rest, es.nodeAt? (dirs ++ last :: name :: rest) = none)
    (h : es.updateAt (·.set last n) dirs = some es') (l : Location) :
    (es'.nodeAt? l).map Node.sight =
      if l = dirs ++ [last] then some n.sight else (es.nodeAt? l).map Node.sight := by
  -- Down along the directories. In each, only the entry on the way is another one.
  induction dirs generalizing es es' l with
  | nil =>
    rw [updateAt, Option.some.injEq] at h
    subst h
    rcases l with _ | ⟨name, rest⟩
    · rfl
    simp only [nodeAt?_cons, get?_set, List.nil_append, List.cons.injEq]
    by_cases hname : name = last
    · subst hname
      rw [if_pos rfl, Option.bind_some]
      cases rest with
      | nil =>
        rw [if_pos ⟨rfl, rfl⟩]
        cases n <;> rfl
      | cons next rest =>
        rw [hn, if_neg (by simp)]
        have hnone := hfree next rest
        rw [List.nil_append, nodeAt?_cons] at hnone
        rw [hnone]
    · rw [if_neg hname, if_neg fun heq => hname heq.1]
  | cons first dirs ih =>
    rw [updateAt] at h
    split at h
    case h_2 => cases h
    case h_1 inner hget =>
    obtain ⟨inner', hinner, hes⟩ := Option.bind_eq_some_iff.mp h
    obtain rfl := Option.some.inj hes
    rcases l with _ | ⟨name, rest⟩
    · rfl
    have hbelow : ∀ next rest, nodeAt? inner (dirs ++ last :: next :: rest) = none := by
      intro next rest
      have hnone := hfree next rest
      rw [List.cons_append, nodeAt?_cons, hget, Option.bind_some, at?_directory] at hnone
      exact hnone
    simp only [nodeAt?_cons, get?_set, List.cons_append, List.cons.injEq]
    by_cases hname : name = first
    · subst hname
      rw [if_pos rfl, hget, Option.bind_some, Option.bind_some, at?_directory, at?_directory,
        ih hbelow hinner rest]
      simp only [true_and]
    · rw [if_neg hname, if_neg fun heq => hname heq.1]

end Entries

namespace Disk

variable {d d' d₁ d₂ : Disk} {a l : Location} {p : FsPath}

/-- What is seen at a location. -/
def sight? (d : Disk) (l : Location) : Option Sight := (d.nodeAt? l).map Node.sight

theorem sight?_root (d : Disk) : d.sight? [] = some .directory := rfl

/-- Around a directory there is a directory. -/
theorem sight?_dropLast (h : d.sight? l = some .directory) :
    d.sight? l.dropLast = some .directory := by
  rcases List.eq_nil_or_concat l with rfl | ⟨l, name, rfl⟩
  · exact h
  · rw [List.concat_eq_append] at h ⊢
    rw [List.dropLast_concat]
    rw [sight?, nodeAt?_append, Option.map_eq_some_iff] at h
    obtain ⟨n, hn, -⟩ := h
    obtain ⟨m, hm, hat⟩ := Option.bind_eq_some_iff.mp hn
    rw [sight?, hm]
    cases m with
    | directory es => rfl
    | _ => cases hat

/-- There is nothing, or a file that may be replaced. -/
def IsFree (d : Disk) (l : Location) : Prop :=
  d.sight? l = none ∨ ∃ c, d.sight? l = some (.file c)

theorem IsFree.nodeAt?_below (h : d.IsFree l) (name : String) (rest : Location) :
    d.nodeAt? (l ++ name :: rest) = none := by
  rw [nodeAt?_append]
  unfold IsFree sight? at h
  cases hn : d.nodeAt? l with
  | none => rfl
  | some n =>
    rw [hn] at h
    cases n with
    | file c => rfl
    | directory es => simp [Node.sight] at h
    | link target => simp [Node.sight] at h

theorem sight?_setAt {n : Node} (hn : ∀ name rest, n.at? (name :: rest) = none)
    (hfree : d.IsFree l) (h : d.setAt l n = some d') (k : Location) :
    d'.sight? k = if k = l then some n.sight else d.sight? k := by
  obtain ⟨last, hlast, h⟩ := Option.bind_eq_some_iff.mp h
  obtain ⟨es, hup, h⟩ := Option.bind_eq_some_iff.mp h
  obtain rfl := Option.some.inj h
  obtain ⟨dirs, rfl⟩ := List.getLast?_eq_some_iff.mp hlast
  rw [List.dropLast_concat] at hup
  refine Entries.sight_nodeAt?_updateAt hn (fun name rest => ?_) hup k
  have hnone := hfree.nodeAt?_below name rest
  rw [List.append_assoc, List.singleton_append] at hnone
  exact hnone

/-! ## 2. Growth -/

/-- A disk has all that another one has. What is new are directories, and a file at a location. -/
def Grows (d : Disk) (a : Location) (d' : Disk) : Prop :=
  ∀ l, d'.sight? l = d.sight? l ∨ (d.sight? l = none ∧ d'.sight? l = some .directory) ∨
    (l = a ∧ d.IsFree l ∧ ∃ c, d'.sight? l = some (.file c))

namespace Grows

theorem refl (a : Location) (d : Disk) : d.Grows a d := fun _ => Or.inl rfl

theorem trans (h : d.Grows a d₁) (h' : d₁.Grows a d₂) : d.Grows a d₂ := by
  intro l
  rcases h l with heq | ⟨hnone, hdir⟩ | ⟨hl, hfree, c, hc⟩ <;>
    rcases h' l with heq' | ⟨hnone', hdir'⟩ | ⟨hl', hfree', c', hc'⟩
  · exact Or.inl (heq'.trans heq)
  · exact Or.inr (Or.inl ⟨heq ▸ hnone', hdir'⟩)
  · refine Or.inr (Or.inr ⟨hl', ?_, c', hc'⟩)
    unfold IsFree at hfree' ⊢
    rw [← heq]
    exact hfree'
  · exact Or.inr (Or.inl ⟨hnone, heq'.trans hdir⟩)
  · rw [hnone'] at hdir
    cases hdir
  · unfold IsFree at hfree'
    rw [hdir] at hfree'
    simp at hfree'
  · exact Or.inr (Or.inr ⟨hl, hfree, c, heq'.trans hc⟩)
  · rw [hnone'] at hc
    cases hc
  · exact Or.inr (Or.inr ⟨hl, hfree, c', hc'⟩)

theorem of_directory {b : Location} (hb : d.sight? b = none)
    (h : d.setAt b (.directory []) = some d') (a : Location) : d.Grows a d' := by
  intro l
  have hset := sight?_setAt Entries.at?_directory_nil (Or.inl hb) h l
  by_cases hl : l = b
  · rw [if_pos hl] at hset
    exact Or.inr (Or.inl ⟨hl ▸ hb, hset⟩)
  · rw [if_neg hl] at hset
    exact Or.inl hset

theorem of_file {c : Content} (hfree : d.IsFree a) (h : d.setAt a (.file c) = some d') :
    d.Grows a d' := by
  intro l
  have hset := sight?_setAt (n := .file c) (fun _ _ => rfl) hfree h l
  by_cases hl : l = a
  · rw [if_pos hl] at hset
    exact Or.inr (Or.inr ⟨hl, hl ▸ hfree, c, hset⟩)
  · rw [if_neg hl] at hset
    exact Or.inl hset

variable (h : d.Grows a d')
include h

theorem sight?_directory (hl : d.sight? l = some .directory) : d'.sight? l = some .directory := by
  rcases h l with heq | ⟨-, hdir⟩ | ⟨-, hfree, -⟩
  · exact heq.trans hl
  · exact hdir
  · unfold IsFree at hfree
    rw [hl] at hfree
    simp at hfree

theorem sight?_link {target : FsPath} (hl : d.sight? l = some (.link target)) :
    d'.sight? l = some (.link target) := by
  rcases h l with heq | ⟨hnone, -⟩ | ⟨-, hfree, -⟩
  · exact heq.trans hl
  · rw [hl] at hnone
    cases hnone
  · unfold IsFree at hfree
    rw [hl] at hfree
    simp at hfree

theorem sight?_file {c : Content} (hl : d.sight? l = some (.file c)) :
    ∃ c', d'.sight? l = some (.file c') := by
  rcases h l with heq | ⟨hnone, -⟩ | ⟨-, -, hfile⟩
  · exact ⟨c, heq.trans hl⟩
  · rw [hl] at hnone
    cases hnone
  · exact hfile

/-- Elsewhere the files are those that were there. -/
theorem sight?_file_iff {c : Content} (hl : l ≠ a) :
    d'.sight? l = some (.file c) ↔ d.sight? l = some (.file c) := by
  rcases h l with heq | ⟨hnone, hdir⟩ | ⟨ha, -⟩
  · rw [heq]
  · rw [hnone, hdir]
    simp
  · exact absurd ha hl

end Grows

/-! ## 3. Looking up on a disk that has grown -/

/-- A piece of a name that is the name of an entry. -/
def IsEntryPiece (piece : String) : Prop := piece ≠ "" ∧ piece ≠ "." ∧ piece ≠ ".."

/-- What a look-up sees on its way through pieces. From a link on, another look-up goes on. -/
inductive Walks (d : Disk) (last : Last) (jump : Location → List String → Option Location)
    (l : Location) : Location → List String → Prop where
  | done : Walks d last jump l l []
  | filler {here : Location} {piece : String} {rest : List String}
      (hpiece : piece = "" ∨ piece = ".") (hw : Walks d last jump l here rest) :
      Walks d last jump l here (piece :: rest)
  | up {here : Location} {rest : List String} (hhere : here ≠ [])
      (hw : Walks d last jump l here.dropLast rest) : Walks d last jump l here (".." :: rest)
  | directory {here : Location} {piece : String} {rest : List String}
      (hpiece : IsEntryPiece piece) (hs : d.sight? (here ++ [piece]) = some .directory)
      (hw : Walks d last jump l (here ++ [piece]) rest) : Walks d last jump l here (piece :: rest)
  | file {here : Location} {piece : String} {c : Content} (hpiece : IsEntryPiece piece)
      (hs : d.sight? (here ++ [piece]) = some (.file c)) (hl : here ++ [piece] = l) :
      Walks d last jump l here [piece]
  /-- The link itself is meant. -/
  | keep {here : Location} {piece : String} {target : FsPath} (hpiece : IsEntryPiece piece)
      (hs : d.sight? (here ++ [piece]) = some (.link target)) (hlast : last = .keep)
      (hl : here ++ [piece] = l) : Walks d last jump l here [piece]
  | follow {here : Location} {piece : String} {rest : List String} {target : FsPath}
      (hpiece : IsEntryPiece piece) (hs : d.sight? (here ++ [piece]) = some (.link target))
      (hlast : rest = [] → last ≠ .keep) (htarget : target.isAbsolute = false)
      (hj : jump here (piecesOf target ++ rest) = some l) :
      Walks d last jump l here (piece :: rest)
  /-- Nothing is there, but something may be made. -/
  | create {here : Location} {piece : String} (hpiece : IsEntryPiece piece)
      (hs : d.sight? (here ++ [piece]) = none) (hlast : last = .create)
      (hl : here ++ [piece] = l) : Walks d last jump l here [piece]

theorem walk_entry {last : Last} {jump : Location → List String → Option Location}
    {piece : String} (hpiece : IsEntryPiece piece) (here : Location) (rest : List String) :
    walk d last jump here (piece :: rest) =
      match d.sight? (here ++ [piece]) with
      | some .directory => walk d last jump (here ++ [piece]) rest
      | some (.file _) => if rest.isEmpty then some (here ++ [piece]) else none
      | some (.link target) =>
        if rest.isEmpty && last == .keep then some (here ++ [piece])
        else if target.isAbsolute then none
        else jump here (piecesOf target ++ rest)
      | none => if rest.isEmpty && last == .create then some (here ++ [piece]) else none := by
  obtain ⟨hempty, hdot, hup⟩ := hpiece
  rw [walk, if_neg (by simp [hempty, hdot]), if_neg (by simp [hup])]
  cases hn : d.nodeAt? (here ++ [piece]) with
  | none => simp only [sight?, hn, Option.map_none]
  | some n => cases n <;> simp only [sight?, hn, Option.map_some, Node.sight]

theorem walk_eq_some_iff {last : Last} {jump : Location → List String → Option Location}
    {here : Location} {pieces : List String} :
    walk d last jump here pieces = some l ↔ Walks d last jump l here pieces := by
  constructor
  · intro h
    -- By the pieces that are left: which kind the first one is, and what it leads to, says which
    -- step comes first.
    induction pieces generalizing here with
    | nil =>
      rw [walk, Option.some.injEq] at h
      exact h ▸ .done
    | cons piece rest ih =>
      by_cases hfiller : piece = "" ∨ piece = "."
      · rw [walk, if_pos (by simpa using hfiller)] at h
        exact .filler hfiller (ih h)
      by_cases hup : piece = ".."
      · subst hup
        rw [walk, if_neg (by decide), if_pos (by decide)] at h
        split at h
        case isTrue => cases h
        case isFalse hhere => exact .up (by simpa using hhere) (ih h)
      rw [not_or] at hfiller
      have hpiece : IsEntryPiece piece := ⟨hfiller.1, hfiller.2, hup⟩
      rw [walk_entry hpiece] at h
      split at h
      case h_1 hs => exact .directory hpiece hs (ih h)
      case h_2 hs =>
        obtain ⟨hrest, hl⟩ := Option.ite_none_right_eq_some.mp h
        rw [List.isEmpty_iff.mp hrest]
        exact .file hpiece hs (Option.some.inj hl)
      case h_3 target hs =>
        split at h
        case isTrue hkeep =>
          rw [Bool.and_eq_true, List.isEmpty_iff, beq_iff_eq] at hkeep
          rw [hkeep.1]
          exact .keep hpiece hs hkeep.2 (Option.some.inj h)
        case isFalse hkeep =>
          rw [Bool.and_eq_true, List.isEmpty_iff, beq_iff_eq, not_and] at hkeep
          obtain ⟨habs, hj⟩ := Option.ite_none_left_eq_some.mp h
          exact .follow hpiece hs hkeep (Bool.eq_false_iff.mpr habs) hj
      case h_4 hs =>
        obtain ⟨hcreate, hl⟩ := Option.ite_none_right_eq_some.mp h
        rw [Bool.and_eq_true, List.isEmpty_iff, beq_iff_eq] at hcreate
        rw [hcreate.1]
        exact .create hpiece hs hcreate.2 (Option.some.inj hl)
  · intro h
    induction h with
    | done => rw [walk]
    | filler hpiece _ ih => rw [walk, if_pos (by simpa using hpiece), ih]
    | up hhere _ ih =>
      rw [walk, if_neg (by decide), if_pos (by decide), if_neg (by simpa using hhere), ih]
    | directory hpiece hs _ ih => simp only [walk_entry hpiece, hs, ih]
    | file hpiece hs hl =>
      rw [walk_entry hpiece, hs, ← hl]
      rfl
    | keep hpiece hs hlast hl =>
      rw [walk_entry hpiece, hs, hlast, ← hl]
      rfl
    | follow hpiece hs hlast htarget hj =>
      rw [walk_entry hpiece, hs]
      simp only [Bool.and_eq_true, List.isEmpty_iff, beq_iff_eq]
      rw [if_neg (not_and.mpr hlast), if_neg (by simp [htarget]), hj]
    | create hpiece hs hlast hl =>
      rw [walk_entry hpiece, hs, hlast, ← hl]
      rfl

/-- There is a file or a directory. -/
def Stands (d : Disk) (l : Location) : Prop :=
  d.sight? l = some .directory ∨ ∃ c, d.sight? l = some (.file c)

/-- Where a look-up leads, one that follows to the end leads on a disk that has grown, if something
stands there by then. -/
theorem Grows.walk_follow (h : d.Grows a d') {last : Last} (hl : last = .follow ∨ d'.Stands l)
    {jump jump' : Location → List String → Option Location}
    (hjump : ∀ here pieces, jump here pieces = some l → jump' here pieces = some l)
    {here : Location} {pieces : List String} (hw : walk d last jump here pieces = some l) :
    walk d' .follow jump' here pieces = some l := by
  rw [walk_eq_some_iff] at hw ⊢
  induction hw with
  | done => exact .done
  | filler hpiece _ ih => exact .filler hpiece ih
  | up hhere _ ih => exact .up hhere ih
  | directory hpiece hs _ ih => exact .directory hpiece (h.sight?_directory hs) ih
  | file hpiece hs heq =>
    obtain ⟨c', hs'⟩ := h.sight?_file hs
    exact .file hpiece hs' heq
  | keep hpiece hs hlast heq =>
    -- A link is nothing that stands.
    have hs' := h.sight?_link hs
    rcases hl with rfl | hdir | ⟨c, hfile⟩
    · cases hlast
    · rw [heq, hdir] at hs'
      cases hs'
    · rw [heq, hfile] at hs'
      cases hs'
  | follow hpiece hs _ htarget hj =>
    exact .follow hpiece (h.sight?_link hs) (fun _ => by decide) htarget (hjump _ _ hj)
  | create hpiece hs hlast heq =>
    rcases hl with rfl | hdir | ⟨c, hfile⟩
    · cases hlast
    · subst heq
      exact .directory hpiece hdir .done
    · subst heq
      exact .file hpiece hfile rfl

theorem Grows.walkWithin_follow (h : d.Grows a d') {last : Last}
    (hl : last = .follow ∨ d'.Stands l) (n : Nat) {here : Location} {pieces : List String}
    (hw : walkWithin d last n here pieces = some l) :
    walkWithin d' .follow n here pieces = some l := by
  induction n generalizing here pieces with
  | zero => exact h.walk_follow hl (fun _ _ hj => hj) hw
  | succ n ih => exact h.walk_follow hl (fun _ _ hj => ih hj) hw

theorem Grows.canonical?_of_locate? (h : d.Grows a d') {last : Last}
    (hl : last = .follow ∨ d'.Stands l) (hp : d.locate? last p = some l) :
    d'.canonical? p = some l := by
  rw [locate?] at hp
  rw [canonical?, locate?]
  split at hp
  case isTrue => cases hp
  case isFalse hcond =>
    rw [if_neg hcond]
    exact h.walkWithin_follow hl maxLinks hp

/-- A name that leads to something leads there still. -/
theorem Grows.canonical?_eq (h : d.Grows a d') (hp : d.canonical? p = some l) :
    d'.canonical? p = some l := h.canonical?_of_locate? (Or.inl rfl) hp

/-! ## 4. What is there -/

theorem isDirectory_iff :
    d.isDirectory p = true ↔ ∃ l, d.canonical? p = some l ∧ d.sight? l = some .directory := by
  rw [isDirectory, get?]
  cases d.canonical? p with
  | none => simp
  | some l =>
    simp only [Option.bind_eq_bind, Option.bind_some, sight?, Option.some.injEq, exists_eq_left']
    cases d.nodeAt? l with
    | none => simp
    | some n => cases n <;> simp [Node.sight]

theorem readText?_eq_some_iff {t : String} :
    d.readText? p = some t ↔
      ∃ l, d.canonical? p = some l ∧ d.sight? l = some (.file (.text t)) := by
  rw [readText?, get?]
  cases d.canonical? p with
  | none => simp
  | some l =>
    simp only [Option.bind_eq_bind, Option.bind_some, sight?, Option.some.injEq, exists_eq_left']
    cases d.nodeAt? l with
    | none => simp
    | some n =>
      cases n with
      | file c => cases c <;> simp [Node.sight]
      | _ => simp [Node.sight]

theorem isFile_iff :
    d.isFile p = true ↔ ∃ l, d.canonical? p = some l ∧ ∃ c, d.sight? l = some (.file c) := by
  rw [isFile, get?]
  cases d.canonical? p with
  | none => simp
  | some l =>
    simp only [Option.bind_eq_bind, Option.bind_some, sight?, Option.some.injEq, exists_eq_left']
    cases d.nodeAt? l with
    | none => simp
    | some n => cases n <;> simp [Node.sight]

theorem Grows.isDirectory (h : d.Grows a d') (hp : d.isDirectory p = true) :
    d'.isDirectory p = true := by
  obtain ⟨l, hl, hs⟩ := isDirectory_iff.mp hp
  exact isDirectory_iff.mpr ⟨l, h.canonical?_eq hl, h.sight?_directory hs⟩

theorem Grows.isFile (h : d.Grows a d') (hp : d.isFile p = true) : d'.isFile p = true := by
  obtain ⟨l, hl, c, hs⟩ := isFile_iff.mp hp
  exact isFile_iff.mpr ⟨l, h.canonical?_eq hl, h.sight?_file hs⟩

/-- A name that leads where it led, and not to the changed file, is read as it was. -/
theorem Grows.readText?_eq (h : d.Grows a d') (hp : d'.canonical? p = d.canonical? p)
    (hne : d'.canonical? p ≠ some a) : d'.readText? p = d.readText? p := by
  refine Option.ext fun t => ?_
  rw [readText?_eq_some_iff, readText?_eq_some_iff, ← hp]
  refine exists_congr fun l => and_congr_right fun hl => ?_
  exact h.sight?_file_iff fun heq => hne (heq ▸ hl)

@[inherit_doc Grows.readText?_eq]
theorem Grows.isFile_eq (h : d.Grows a d') (hp : d'.canonical? p = d.canonical? p)
    (hne : d'.canonical? p ≠ some a) : d'.isFile p = d.isFile p := by
  rw [Bool.eq_iff_iff, isFile_iff, isFile_iff, ← hp]
  refine exists_congr fun l => and_congr_right fun hl => exists_congr fun c => ?_
  exact h.sight?_file_iff fun heq => hne (heq ▸ hl)

/-! ## 5. The files below a directory -/

end Disk

namespace Entries

/-- An entry that is set takes the place of the one with its name, if there is one. -/
theorem exists_split_set (name : String) (n : Node) (es : Entries) :
    ∃ as mid bs, set name n es = as ++ (name, n) :: bs ∧ es = as ++ mid ++ bs ∧
      (mid = [] ∨ ∃ old, mid = [(name, old)] ∧ es.get? name = some old) := by
  -- Entry by entry, up to the one that has the name or is greater.
  induction es with
  | nil => exact ⟨[], [], [], rfl, rfl, Or.inl rfl⟩
  | cons e es ih =>
    rw [set]
    split
    case isTrue heq =>
      obtain rfl : e.1 = name := beq_iff_eq.mp heq
      refine ⟨[], [e], es, rfl, rfl, Or.inr ⟨e.2, rfl, ?_⟩⟩
      rw [get?, List.lookup_cons, beq_self_eq_true]
    case isFalse hne =>
    split
    case isTrue => exact ⟨[], [], e :: es, rfl, rfl, Or.inl rfl⟩
    case isFalse =>
      obtain ⟨as, mid, bs, hset, hes, hmid⟩ := ih
      refine ⟨e :: as, mid, bs, by rw [hset, List.cons_append], by rw [hes]; rfl, ?_⟩
      refine hmid.imp_right ?_
      rintro ⟨old, hold, hget⟩
      refine ⟨old, hold, ?_⟩
      have hname : (name == e.1) = false :=
        beq_eq_false_iff_ne.mpr fun heq => hne (beq_iff_eq.mpr heq.symm)
      rw [get?, List.lookup_cons, hname]
      exact hget

/-- Nothing is listed below a node that is a file or an empty directory. -/
def HoldsNothing (n : Node) : Prop := ∀ p l, ∀ x ∈ Disk.locatedAt p l n, x.2 = l

theorem holdsNothing_file (c : Content) : HoldsNothing (.file c) := by
  intro p l x hx
  rw [Disk.locatedAt, List.mem_singleton] at hx
  rw [hx]

theorem holdsNothing_directory_nil : HoldsNothing (.directory []) := by
  intro p l x hx
  rw [Disk.locatedAt, Disk.locatedIn] at hx
  cases hx

theorem HoldsNothing.filter_locatedAt {n : Node} (h : HoldsNothing n) (p : FsPath) (l : Location) :
    (Disk.locatedAt p l n).filter (·.2 != l) = [] := by
  rw [List.filter_eq_nil_iff]
  intro x hx
  simp [h p l x hx]

variable {es es' : Entries} {dirs : Location} {last : String} {n : Node}

/-- Where a node is set in a directory, other files in and below it stay listed as they are. -/
theorem filter_locatedIn_updateAt (hp : IsPlain es) (hn : HoldsNothing n)
    (hold : ∀ m, es.nodeAt? (dirs ++ [last]) = some m → ∃ c, m = .file c)
    (h : es.updateAt (·.set last n) dirs = some es') (dir : FsPath) (k : Location) :
    (Disk.locatedIn dir k es').filter (·.2 != k ++ (dirs ++ [last])) =
      (Disk.locatedIn dir k es).filter (·.2 != k ++ (dirs ++ [last])) := by
  -- Down along the directories. In the last one, what is filtered out is the entry itself, both the
  -- old and the new.
  induction dirs generalizing es es' dir k with
  | nil =>
    rw [updateAt, Option.some.injEq] at h
    obtain ⟨as, mid, bs, hset, hes, hmid⟩ := exists_split_set last n es
    have hgone : (Disk.locatedIn dir k mid).filter (·.2 != k ++ [last]) = [] := by
      rcases hmid with rfl | ⟨old, rfl, hget⟩
      · rw [Disk.locatedIn, List.filter_nil]
      · obtain ⟨c, rfl⟩ := hold old hget
        rw [Disk.locatedIn, Disk.locatedIn, List.append_nil]
        exact (holdsNothing_file c).filter_locatedAt _ _
    rw [← h, hset, Disk.locatedIn_append, Disk.locatedIn, List.filter_append, List.filter_append,
      List.nil_append, hn.filter_locatedAt, List.nil_append]
    rw [hes, Disk.locatedIn_append, Disk.locatedIn_append, List.filter_append, List.filter_append,
      hgone, List.append_nil]
  | cons first dirs ih =>
    rw [updateAt] at h
    split at h
    case h_2 => cases h
    case h_1 inner hget =>
    obtain ⟨inner', hinner, hes'⟩ := Option.bind_eq_some_iff.mp h
    obtain ⟨as, bs, hes⟩ := exists_split_of_get? hget
    have hsplit := (hes ▸ hp).split
    have hplain := hsplit.2.2.2
    rw [Node.IsPlain] at hplain
    have hbelow : ∀ m, nodeAt? inner (dirs ++ [last]) = some m → ∃ c, m = .file c := by
      intro m hm
      refine hold m ?_
      rw [List.cons_append, nodeAt?_cons, hget, Option.bind_some, at?_directory]
      exact hm
    have hbetween := ih hplain hbelow hinner (dir.join ⟨first⟩) (k ++ [first])
    rw [List.append_assoc, List.singleton_append] at hbetween
    rw [← Option.some.inj hes', hes, set_split _ hsplit.1, Disk.locatedIn_append,
      Disk.locatedIn_append, Disk.locatedIn, Disk.locatedIn, Disk.locatedAt, Disk.locatedAt,
      List.cons_append]
    simp only [List.filter_append, hbetween]

/-- What holds of a directory holds of every directory in it. -/
theorem exists_directory_updateAt (hp : IsPlain es) (hn : HoldsNothing n)
    (hold : ∀ m, es.nodeAt? (dirs ++ [last]) = some m → ∃ c, m = .file c)
    (h : es.updateAt (·.set last n) dirs = some es') (k : Location) {l : Location} {inner : Entries}
    (hl : es.nodeAt? l = some (.directory inner)) :
    ∃ inner', es'.nodeAt? l = some (.directory inner') ∧ ∀ dir,
      (Disk.locatedIn dir (k ++ l) inner').filter (·.2 != k ++ (dirs ++ [last])) =
        (Disk.locatedIn dir (k ++ l) inner).filter (·.2 != k ++ (dirs ++ [last])) := by
  induction l generalizing es es' dirs k with
  | nil =>
    obtain rfl : es = inner := by simpa [nodeAt?] using hl
    refine ⟨es', rfl, fun dir => ?_⟩
    rw [List.append_nil]
    exact filter_locatedIn_updateAt hp hn hold h dir k
  | cons name rest ih =>
    rw [nodeAt?_cons] at hl ⊢
    cases dirs with
    | nil =>
      rw [updateAt, Option.some.injEq] at h
      rw [← h, get?_set]
      by_cases hname : name = last
      · -- There is no directory, but a file.
        obtain ⟨m, hm, hat⟩ := Option.bind_eq_some_iff.mp hl
        obtain ⟨c, rfl⟩ := hold m (hname ▸ hm)
        cases rest <;> cases hat
      · rw [if_neg hname]
        exact ⟨inner, hl, fun _ => rfl⟩
    | cons first dirs =>
      rw [updateAt] at h
      split at h
      case h_2 => cases h
      case h_1 child hget =>
      obtain ⟨child', hchild, hes'⟩ := Option.bind_eq_some_iff.mp h
      rw [← Option.some.inj hes', get?_set]
      by_cases hname : name = first
      · subst hname
        rw [hget, Option.bind_some, at?_directory] at hl
        obtain ⟨as, bs, hes⟩ := exists_split_of_get? hget
        have hplain := (hes ▸ hp).split.2.2.2
        rw [Node.IsPlain] at hplain
        have hbelow : ∀ m, nodeAt? child (dirs ++ [last]) = some m → ∃ c, m = .file c := by
          intro m hm
          refine hold m ?_
          rw [List.cons_append, nodeAt?_cons, hget, Option.bind_some, at?_directory]
          exact hm
        obtain ⟨inner', hl', heq⟩ := ih hplain hbelow hchild (k ++ [name]) hl
        rw [if_pos rfl, Option.bind_some, at?_directory]
        simp only [List.append_assoc, List.singleton_append] at heq
        exact ⟨inner', hl', heq⟩
      · rw [if_neg hname]
        exact ⟨inner, hl, fun _ => rfl⟩

end Entries

namespace Disk

variable {d d' d₁ d₂ : Disk} {a l : Location} {p : FsPath}

/-- A name that is listed leads to a file. -/
theorem sight?_of_mem_located (hp : d.IsPlain) {dir f : FsPath} (h : (f, l) ∈ d.located dir) :
    ∃ c, d.sight? l = some (.file c) := by
  rcases d.located_eq_nil_or dir with hnil | ⟨k, n, -, hk, heq⟩
  · rw [hnil] at h
    cases h
  · rw [heq] at h
    obtain ⟨s, c, rfl, hat⟩ := exists_of_mem_locatedAt (Entries.IsPlain.nodeAt? hp hk) h
    refine ⟨c, ?_⟩
    rw [sight?, nodeAt?_append, hk, Option.bind_some, hat]
    rfl

/-- A disk has grown, and below each directory the same files are listed, apart from one. -/
structure Adds (d : Disk) (a : Location) (d' : Disk) : Prop where
  grows : d.Grows a d'
  isPlain : d.IsPlain → d'.IsPlain
  located : d.IsPlain → ∀ dir, d.isDirectory dir = true →
    (d'.located dir).filter (·.2 != a) = (d.located dir).filter (·.2 != a)

namespace Adds

theorem refl (a : Location) (d : Disk) : d.Adds a d := ⟨.refl a d, id, fun _ _ _ => rfl⟩

theorem trans (h : d.Adds a d₁) (h' : d₁.Adds a d₂) : d.Adds a d₂ where
  grows := h.grows.trans h'.grows
  isPlain hp := h'.isPlain (h.isPlain hp)
  located hp dir hdir :=
    (h'.located (h.isPlain hp) dir (h.grows.isDirectory hdir)).trans (h.located hp dir hdir)

/-- Where a node is set, other files stay listed as they are. -/
theorem filter_located_setAt {n : Node} (hp : d.IsPlain) (hn : Entries.HoldsNothing n)
    (hfree : d.IsFree l) (hgrows : d.Grows a d') (h : d.setAt l n = some d') {dir : FsPath}
    (hdir : d.isDirectory dir = true) :
    (d'.located dir).filter (·.2 != l) = (d.located dir).filter (·.2 != l) := by
  obtain ⟨k, hk, hsight⟩ := isDirectory_iff.mp hdir
  obtain ⟨last, hlast, hset⟩ := Option.bind_eq_some_iff.mp h
  obtain ⟨es, hup, hd⟩ := Option.bind_eq_some_iff.mp hset
  obtain ⟨dirs, rfl⟩ := List.getLast?_eq_some_iff.mp hlast
  rw [List.dropLast_concat] at hup
  obtain ⟨inner, hinner⟩ : ∃ inner, d.nodeAt? k = some (.directory inner) :=
    exists_entries_of_isDirectory hk hdir
  -- What the node takes the place of is a file, if there is anything.
  have hold : ∀ m, d.nodeAt? (dirs ++ [last]) = some m → ∃ c, m = .file c := by
    intro m hm
    unfold IsFree sight? at hfree
    rw [hm] at hfree
    cases m with
    | file c => exact ⟨c, rfl⟩
    | directory es => simp [Node.sight] at hfree
    | link target => simp [Node.sight] at hfree
  obtain ⟨inner', hinner', heq⟩ := Entries.exists_directory_updateAt hp hn hold hup [] hinner
  have hdisk : d'.nodeAt? k = some (.directory inner') := by
    rw [← Option.some.inj hd]
    exact hinner'
  rw [located_eq (hgrows.canonical?_eq hk) hdisk, located_eq hk hinner, locatedAt, locatedAt]
  exact heq dir

theorem of_directory {b : Location} (hplain : d.IsPlain → d'.IsPlain) (hb : d.sight? b = none)
    (h : d.setAt b (.directory []) = some d') (a : Location) : d.Adds a d' where
  grows := .of_directory hb h a
  isPlain := hplain
  located := by
    intro hp dir hdir
    have hgrows := Grows.of_directory hb h a
    have hb' : d'.sight? b = some .directory := by
      rw [sight?_setAt Entries.at?_directory_nil (Or.inl hb) h, if_pos rfl]
      rfl
    -- No file is at that location, before or after.
    have hsame := filter_located_setAt hp Entries.holdsNothing_directory_nil (Or.inl hb) hgrows h
      hdir
    have hall {e : Disk} (he : e.IsPlain) (hno : ∀ c, e.sight? b ≠ some (.file c)) :
        (e.located dir).filter (·.2 != b) = e.located dir := by
      rw [List.filter_eq_self]
      rintro ⟨f, m⟩ hf
      rw [bne_iff_ne]
      rintro rfl
      obtain ⟨c, hc⟩ := sight?_of_mem_located he hf
      exact hno c hc
    rw [hall hp (by simp [hb]), hall (hplain hp) (by simp [hb'])] at hsame
    rw [hsame]

theorem of_file {c : Content} (hplain : d.IsPlain → d'.IsPlain) (hfree : d.IsFree a)
    (h : d.setAt a (.file c) = some d') : d.Adds a d' where
  grows := .of_file hfree h
  isPlain := hplain
  located hp _ hdir := filter_located_setAt hp (Entries.holdsNothing_file c) hfree
    (.of_file hfree h) h hdir

end Adds

end Disk

end EnumCatalog
