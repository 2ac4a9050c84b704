import EnumCatalog.Disk
import Mathlib.Data.List.Basic
import Mathlib.Data.List.Nodup

/-!
# Plain disks

A disk is *plain* if there are no links on it and its directories hold their entries under proper
names, each once and in order. On such a disk a look-up goes by what is at each location and by
nothing else, so it is enough to know of a change which locations it touches.

Two changes are looked at, both of a single file: writing it anew and removing it (`Disk.Edit`). The
answers to all questions about the disk afterwards are read off those before: which location a name
leads to, what is there, and which files there are below a directory.
-/

set_option autoImplicit false

namespace EnumCatalog

/-! ## 1. Plain disks -/

/-- A name under which a directory can hold something. -/
def IsEntryName (n : String) : Prop := n ≠ "" ∧ n ≠ "." ∧ n ≠ ".." ∧ '/' ∉ n.toList

mutual

/-- A node without links, whose directories are in order. -/
def Node.IsPlain : Node → Prop
  | .file _ => True
  | .directory es => Entries.IsPlain es
  | .link _ => False

/-- Entries under proper names, each once and in order, without links. -/
def Entries.IsPlain : List (String × Node) → Prop
  | [] => True
  | (name, n) :: rest =>
    IsEntryName name ∧ n.IsPlain ∧ (∀ e ∈ rest, name < e.1) ∧ Entries.IsPlain rest

end

namespace Entries

theorem isPlain_iff {es : Entries} :
    IsPlain es ↔ es.Pairwise (fun a b => a.1 < b.1) ∧
      ∀ e ∈ es, IsEntryName e.1 ∧ e.2.IsPlain := by
  induction es with
  | nil => simp [IsPlain]
  | cons e es ih =>
    obtain ⟨name, n⟩ := e
    rw [IsPlain, ih, List.pairwise_cons, List.forall_mem_cons]
    constructor
    · rintro ⟨hname, hn, hlt, hsorted, hall⟩
      exact ⟨⟨hlt, hsorted⟩, ⟨hname, hn⟩, hall⟩
    · rintro ⟨⟨hlt, hsorted⟩, ⟨hname, hn⟩, hall⟩
      exact ⟨hname, hn, hlt, hsorted, hall⟩

theorem IsPlain.sublist {as bs : Entries} (h : IsPlain bs) (hs : List.Sublist as bs) :
    IsPlain as := by
  obtain ⟨hsorted, hall⟩ := isPlain_iff.mp h
  exact isPlain_iff.mpr ⟨hsorted.sublist hs, fun e he => hall e (hs.subset he)⟩

/-- In order, an entry is surrounded by lesser and greater names. -/
theorem IsPlain.split {as bs : Entries} {name : String} {n : Node}
    (h : IsPlain (as ++ (name, n) :: bs)) :
    (∀ e ∈ as, e.1 < name) ∧ (∀ e ∈ bs, name < e.1) ∧ IsEntryName name ∧ n.IsPlain := by
  obtain ⟨hsorted, hall⟩ := isPlain_iff.mp h
  obtain ⟨-, hbs, hcross⟩ := List.pairwise_append.mp hsorted
  have hmid := hall (name, n) (List.mem_append_right as List.mem_cons_self)
  exact ⟨fun e he => hcross e he _ List.mem_cons_self, (List.pairwise_cons.mp hbs).1, hmid.1, hmid.2⟩

/-- Under a name there may be something else. -/
theorem IsPlain.replace {as bs : Entries} {name : String} {n n' : Node}
    (h : IsPlain (as ++ (name, n) :: bs)) (hn : n'.IsPlain) :
    IsPlain (as ++ (name, n') :: bs) := by
  rw [isPlain_iff] at h ⊢
  obtain ⟨hsorted, hall⟩ := h
  constructor
  · have hnames : (as ++ (name, n') :: bs).map Prod.fst = (as ++ (name, n) :: bs).map Prod.fst := by
      simp
    exact List.pairwise_map.mp (hnames ▸ List.pairwise_map.mpr hsorted)
  · intro e he
    rcases List.mem_append.mp he with he | he
    · exact hall e (List.mem_append_left _ he)
    rcases List.mem_cons.mp he with rfl | he
    · exact ⟨(hall _ (List.mem_append_right as List.mem_cons_self)).1, hn⟩
    · exact hall e (List.mem_append_right as (List.mem_cons_of_mem _ he))

theorem get?_split {as bs : Entries} {name : String} {n : Node} (has : ∀ e ∈ as, e.1 < name) :
    get? (as ++ (name, n) :: bs) name = some n := by
  have hnone : as.lookup name = none := by
    rw [List.lookup_eq_none_iff]
    intro e he
    have hlt := has e he
    rw [bne_iff_ne]
    rintro rfl
    exact String.lt_irrefl _ hlt
  rw [get?, List.lookup_append, hnone, Option.none_or, List.lookup_cons, beq_self_eq_true]

theorem get?_split_of_ne {as bs mid : Entries} {name other : String}
    (hmid : ∀ e ∈ mid, e.1 = name) (h : other ≠ name) :
    get? (as ++ mid ++ bs) other = get? (as ++ bs) other := by
  have hnone : mid.lookup other = none := by
    rw [List.lookup_eq_none_iff]
    intro e he
    rw [bne_iff_ne, hmid e he]
    exact h
  rw [get?, get?, List.append_assoc, List.lookup_append, List.lookup_append, hnone, Option.none_or,
    List.lookup_append]

theorem get?_of_ne {as bs : Entries} {name other : String} {n : Node} (h : other ≠ name) :
    get? (as ++ (name, n) :: bs) other = get? (as ++ bs) other := by
  have hmid : get? (as ++ [(name, n)] ++ bs) other = get? (as ++ bs) other :=
    get?_split_of_ne (by simp) h
  rw [List.append_assoc, List.singleton_append] at hmid
  exact hmid

theorem exists_split_of_get? {es : Entries} {name : String} {n : Node} (h : es.get? name = some n) :
    ∃ as bs, es = as ++ (name, n) :: bs := by
  obtain ⟨as, bs, hes, -⟩ := List.lookup_eq_some_iff.mp h
  exact ⟨as, bs, hes⟩

end Entries

/-! ## 2. Nodes at locations -/

/-- The node at a location below. -/
def Node.at? : Node → Location → Option Node
  | n, [] => some n
  | .directory es, name :: rest => Entries.nodeAt? es (name :: rest)
  | _, _ :: _ => none

namespace Entries

theorem at?_directory (es : Entries) (l : Location) : (Node.directory es).at? l = es.nodeAt? l := by
  cases l <;> rfl

theorem nodeAt?_cons (es : Entries) (name : String) (rest : Location) :
    es.nodeAt? (name :: rest) = (es.get? name).bind (·.at? rest) := by
  cases rest with
  | nil =>
    rw [nodeAt?]
    cases es.get? name with
    | none => rfl
    | some n => cases n <;> rfl
  | cons next rest =>
    rw [nodeAt?]
    · cases es.get? name with
      | none => rfl
      | some n => cases n <;> rfl
    · exact List.cons_ne_nil next rest

end Entries

theorem Node.at?_append (n : Node) (l rest : Location) :
    n.at? (l ++ rest) = (n.at? l).bind (·.at? rest) := by
  induction l generalizing n with
  | nil => cases rest <;> cases n <;> rfl
  | cons name l ih =>
    cases n with
    | directory es =>
      rw [List.cons_append, Entries.at?_directory, Entries.at?_directory, Entries.nodeAt?_cons,
        Entries.nodeAt?_cons]
      cases Entries.get? es name with
      | none => rfl
      | some n => exact ih n
    | _ => rfl

theorem Disk.nodeAt?_append (d : Disk) (l rest : Location) :
    d.nodeAt? (l ++ rest) = (d.nodeAt? l).bind (·.at? rest) := by
  rw [nodeAt?, ← Entries.at?_directory, Node.at?_append, Entries.at?_directory]
  rfl

/-- A disk without links, whose directories are in order. -/
def Disk.IsPlain (d : Disk) : Prop := Entries.IsPlain d.entries

theorem Entries.IsPlain.nodeAt? {es : Entries} (h : IsPlain es) {l : Location} {n : Node}
    (hn : es.nodeAt? l = some n) : n.IsPlain := by
  induction l generalizing es with
  | nil =>
    rw [Entries.nodeAt?, Option.some.injEq] at hn
    rw [← hn, Node.IsPlain]
    exact h
  | cons name l ih =>
    rw [nodeAt?_cons, Option.bind_eq_some_iff] at hn
    obtain ⟨inner, hget, hat⟩ := hn
    obtain ⟨as, bs, rfl⟩ := exists_split_of_get? hget
    have hinner := h.split.2.2.2
    cases l with
    | nil =>
      cases inner <;> cases hat <;> exact hinner
    | cons next l =>
      cases inner with
      | directory inner => exact ih (by rw [Node.IsPlain] at hinner; exact hinner) hat
      | _ => cases hat

/-! ## 3. Changing one file -/

/-- The file at a location gets other content, or it goes. -/
inductive Entries.Edit (r : Option Content) : Location → Entries → Entries → Prop where
  | here (as bs : Entries) (name : String) (c : Content) :
    Edit r [name] (as ++ (name, .file c) :: bs)
      (as ++ (r.map fun new => (name, Node.file new)).toList ++ bs)
  | inside (as bs : Entries) (name : String) {l : Location} {es es' : Entries}
    (h : Edit r l es es') : Edit r (name :: l) (as ++ (name, .directory es) :: bs) (as ++ (name, .directory es') :: bs)

namespace Entries

variable {r : Option Content} {loc : Location} {es es' : Entries}

theorem Edit.isPlain (h : Edit r loc es es') (hp : IsPlain es) : IsPlain es' := by
  induction h with
  | here as bs name c =>
    cases r with
    | some new =>
      rw [Option.map_some, Option.toList_some, List.append_assoc]
      exact hp.replace trivial
    | none =>
      rw [Option.map_none, Option.toList_none, List.append_nil]
      exact hp.sublist ((List.Sublist.refl as).append (List.sublist_cons_self _ bs))
  | inside as bs name _ ih =>
    have hinner := hp.split.2.2.2
    rw [Node.IsPlain] at hinner
    refine hp.replace ?_
    rw [Node.IsPlain]
    exact ih hinner

theorem Edit.nodeAt?_before (h : Edit r loc es es') (hp : IsPlain es) :
    ∃ c, es.nodeAt? loc = some (.file c) := by
  induction h with
  | here as bs name c => exact ⟨c, get?_split hp.split.1⟩
  | inside as bs name _ ih =>
    have hinner := hp.split.2.2.2
    rw [Node.IsPlain] at hinner
    obtain ⟨c, hc⟩ := ih hinner
    exact ⟨c, by rw [nodeAt?_cons, get?_split hp.split.1, Option.bind_some, at?_directory, hc]⟩

theorem Edit.nodeAt?_self (h : Edit r loc es es') (hp : IsPlain es) :
    es'.nodeAt? loc = r.map .file := by
  -- Down to the directory of the file, where no other entry has its name.
  induction h with
  | here as bs name c =>
    obtain ⟨has, hbs, -, -⟩ := hp.split
    cases r with
    | some new =>
      show get? (as ++ [(name, Node.file new)] ++ bs) name = some (.file new)
      rw [List.append_assoc]
      exact get?_split has
    | none =>
      show get? (as ++ [] ++ bs) name = none
      rw [get?, List.lookup_eq_none_iff]
      intro e he
      rw [bne_iff_ne]
      rintro rfl
      rw [List.append_nil, List.mem_append] at he
      rcases he with he | he
      · exact String.lt_irrefl _ (has e he)
      · exact String.lt_irrefl _ (hbs e he)
  | inside as bs name _ ih =>
    have hinner := hp.split.2.2.2
    rw [Node.IsPlain] at hinner
    rw [nodeAt?_cons, get?_split hp.split.1, Option.bind_some, at?_directory, ih hinner]

/-- What a change makes of the node at a location: it is the file itself, or it stays as it is, or it
is a directory around the file. -/
theorem Edit.nodeAt?_cases (h : Edit r loc es es') (hp : IsPlain es) (l : Location) :
    l = loc ∨ es'.nodeAt? l = es.nodeAt? l ∨
      ∃ s inner inner', loc = l ++ s ∧ Edit r s inner inner' ∧ IsPlain inner ∧
        es.nodeAt? l = some (.directory inner) ∧ es'.nodeAt? l = some (.directory inner') := by
  induction h generalizing l with
  | here as bs name c =>
    rcases l with _ | ⟨other, rest⟩
    · exact Or.inr (Or.inr ⟨[name], _, _, rfl, Edit.here as bs name c, hp, rfl, rfl⟩)
    by_cases ho : other = name
    · subst ho
      rcases rest with _ | ⟨next, rest⟩
      · exact Or.inl rfl
      · -- A file has nothing below it, before and after.
        have hafter := (Edit.here (r := r) as bs other c).nodeAt?_self hp
        rw [nodeAt?] at hafter
        right; left
        rw [nodeAt?_cons, nodeAt?_cons, get?_split hp.split.1, hafter]
        cases r <;> rfl
    · have hmid : ∀ e ∈ (r.map fun new => (name, Node.file new)).toList, e.1 = name := by
        intro e he
        obtain ⟨new, -, rfl⟩ := Option.map_eq_some_iff.mp (Option.mem_toList.mp he)
        rfl
      right; left
      rw [nodeAt?_cons, nodeAt?_cons, get?_split_of_ne hmid ho, get?_of_ne ho]
  | @inside as bs name loc inner inner' h ih =>
    have hinner := hp.split.2.2.2
    rw [Node.IsPlain] at hinner
    rcases l with _ | ⟨other, rest⟩
    · exact Or.inr (Or.inr ⟨name :: loc, _, _, rfl, Edit.inside as bs name h, hp, rfl, rfl⟩)
    by_cases ho : other = name
    · subst ho
      rw [nodeAt?_cons, nodeAt?_cons, get?_split hp.split.1, get?_split hp.split.1,
        Option.bind_some, Option.bind_some, at?_directory, at?_directory]
      rcases ih hinner rest with heq | heq | ⟨s, below, below', hloc, hedit, hplain, hb, ha⟩
      · exact Or.inl (by rw [heq])
      · exact Or.inr (Or.inl heq)
      · exact Or.inr (Or.inr
          ⟨s, below, below', by rw [hloc, List.cons_append], hedit, hplain, hb, ha⟩)
    · right; left
      rw [nodeAt?_cons, nodeAt?_cons, get?_of_ne ho, get?_of_ne ho]

/-- The kind of a node and its content, if it is a file. -/
def nodeView : Node → Option Content
  | .file c => some c
  | _ => none

/-- Elsewhere the change does not show. -/
theorem Edit.nodeAt?_of_ne (h : Edit r loc es es') (hp : IsPlain es) {l : Location} (hl : l ≠ loc) :
    (es'.nodeAt? l).map nodeView = (es.nodeAt? l).map nodeView := by
  rcases h.nodeAt?_cases hp l with heq | heq | ⟨_, _, _, -, -, -, hb, ha⟩
  · exact absurd heq hl
  · rw [heq]
  · rw [hb, ha]
    rfl

theorem set_split {as bs : Entries} {name : String} {old : Node} (n : Node)
    (has : ∀ e ∈ as, e.1 < name) : set name n (as ++ (name, old) :: bs) = as ++ (name, n) :: bs := by
  induction as with
  | nil => rw [List.nil_append, set, if_pos (beq_self_eq_true name), List.nil_append]
  | cons e as ih =>
    have he := has e List.mem_cons_self
    have hne : ¬ (e.1 == name) = true := by
      rw [beq_iff_eq]
      rintro rfl
      exact String.lt_irrefl _ he
    rw [List.cons_append, set, if_neg hne, if_neg (String.lt_asymm he),
      ih fun a ha => has a (List.mem_cons_of_mem e ha), List.cons_append]

theorem erase_split {as bs : Entries} {name : String} {n : Node} (has : ∀ e ∈ as, e.1 < name)
    (hbs : ∀ e ∈ bs, name < e.1) : erase (as ++ (name, n) :: bs) name = as ++ bs := by
  have keep (es : Entries) (h : ∀ e ∈ es, e.1 ≠ name) : es.filter (·.1 != name) = es := by
    rw [List.filter_eq_self]
    exact fun e he => bne_iff_ne.mpr (h e he)
  rw [erase, List.filter_append, List.filter_cons_of_neg (by simp), keep as, keep bs]
  · rintro e he rfl
    exact String.lt_irrefl _ (hbs e he)
  · rintro e he rfl
    exact String.lt_irrefl _ (has e he)

/-- A change of a directory that changes one file in it changes this file on the way down. -/
theorem edit_of_updateAt {f : Entries → Entries} {last : String} {c : Content}
    (hf : ∀ as bs : Entries, IsPlain (as ++ (last, .file c) :: bs) →
      Edit r [last] (as ++ (last, .file c) :: bs) (f (as ++ (last, .file c) :: bs)))
    {dirs : Location} (hp : IsPlain es) (hc : es.nodeAt? (dirs ++ [last]) = some (.file c))
    (h : es.updateAt f dirs = some es') : Edit r (dirs ++ [last]) es es' := by
  -- Down along the directories, each of which is left as it is around the one on the way.
  induction dirs generalizing es es' with
  | nil =>
    rw [updateAt, Option.some.injEq] at h
    obtain ⟨as, bs, rfl⟩ := exists_split_of_get? hc
    rw [← h]
    exact hf as bs hp
  | cons name dirs ih =>
    rw [List.cons_append, nodeAt?_cons, Option.bind_eq_some_iff] at hc
    obtain ⟨inner, hget, hat⟩ := hc
    obtain ⟨as, bs, rfl⟩ := exists_split_of_get? hget
    obtain ⟨has, -, -, hinner⟩ := hp.split
    cases inner with
    | directory inner =>
      rw [Node.IsPlain] at hinner
      rw [at?_directory] at hat
      simp only [updateAt, hget, Option.bind_eq_bind, Option.bind_eq_some_iff] at h
      obtain ⟨inner', hup, hes⟩ := h
      rw [← Option.some.inj hes, set_split _ has]
      exact Edit.inside as bs name (ih hinner hat hup)
    | _ => cases dirs <;> cases hat

end Entries

/-! ## 4. Looking up -/

namespace Disk

/-- A file of a disk gets other content, or it goes. -/
def Edit (r : Option Content) (loc : Location) (d d' : Disk) : Prop :=
  Entries.Edit r loc d.entries d'.entries

variable {d d' : Disk} {r : Option Content} {loc : Location}

/-- What a look-up sees at a location: nothing, a directory, or a file with its content. -/
def view (d : Disk) (l : Location) : Option (Option Content) :=
  (d.nodeAt? l).map Entries.nodeView

theorem Edit.isPlain (h : Edit r loc d d') (hp : d.IsPlain) : d'.IsPlain := Entries.Edit.isPlain h hp

theorem Edit.view_of_ne (h : Edit r loc d d') (hp : d.IsPlain) {l : Location} (hl : l ≠ loc) :
    d'.view l = d.view l := Entries.Edit.nodeAt?_of_ne h hp hl

/-- On a plain disk a piece of a name leads on as the location says. -/
theorem walk_cons (hp : d.IsPlain) (last : Last)
    (jump : Location → List String → Option Location) (here : Location) (piece : String)
    (rest : List String) :
    walk d last jump here (piece :: rest) =
      if piece == "" || piece == "." then walk d last jump here rest
      else if piece == ".." then
        if here.isEmpty then none else walk d last jump here.dropLast rest
      else
        match d.view (here ++ [piece]) with
        | some none => walk d last jump (here ++ [piece]) rest
        | some (some _) => if rest.isEmpty then some (here ++ [piece]) else none
        | none => if rest.isEmpty && last == .create then some (here ++ [piece]) else none := by
  rw [walk]
  split
  · rfl
  split
  · rfl
  cases hn : d.nodeAt? (here ++ [piece]) with
  | none => simp only [view, hn, Option.map_none]
  | some n =>
    cases n with
    | file c => simp only [view, hn, Option.map_some, Entries.nodeView]
    | directory es => simp only [view, hn, Option.map_some, Entries.nodeView]
    | link target =>
      have hplain := Entries.IsPlain.nodeAt? hp hn
      rw [Node.IsPlain] at hplain
      exact hplain.elim

/-- On a plain disk no link is met, so it does not matter what would be done about one. -/
theorem walk_eq_of_isPlain (hp : d.IsPlain) (last : Last)
    (jump jump' : Location → List String → Option Location) (here : Location)
    (pieces : List String) : walk d last jump here pieces = walk d last jump' here pieces := by
  induction pieces generalizing here with
  | nil => rw [walk, walk]
  | cons piece rest ih =>
    rw [walk_cons hp, walk_cons hp]
    simp only [ih]

theorem Edit.view_before (h : Edit r loc d d') (hp : d.IsPlain) :
    ∃ c, d.view loc = some (some c) := by
  obtain ⟨c, hc⟩ := Entries.Edit.nodeAt?_before h hp
  exact ⟨c, congrArg (Option.map Entries.nodeView) hc⟩

theorem Edit.view_self (h : Edit r loc d d') (hp : d.IsPlain) : d'.view loc = r.map some := by
  rw [view, nodeAt?, Entries.Edit.nodeAt?_self h hp]
  cases r <;> rfl

theorem view_root (d : Disk) : d.view [] = some none := rfl

/-- Around a directory there is a directory. -/
theorem view_dropLast {l : Location} (h : d.view l = some none) :
    d.view l.dropLast = some none := by
  rcases List.eq_nil_or_concat l with rfl | ⟨l, name, rfl⟩
  · exact h
  · rw [List.concat_eq_append, List.dropLast_append_of_ne_nil (List.cons_ne_nil name []),
      List.dropLast_singleton, List.append_nil]
    rw [view, List.concat_eq_append, nodeAt?_append, Option.map_eq_some_iff] at h
    obtain ⟨n, hn, -⟩ := h
    obtain ⟨m, hm, hat⟩ := Option.bind_eq_some_iff.mp hn
    rw [view, hm]
    cases m with
    | directory es => rfl
    | _ => cases hat

/-- After the change of a file, look-ups find what they found, unless it was a file that went. -/
theorem Edit.walk_eq (h : Edit r loc d d') (hp : d.IsPlain)
    (jump jump' : Location → List String → Option Location) {here : Location}
    (pieces : List String) (hd : d.view here = some none) :
    walk d' .follow jump' here pieces =
      (walk d .follow jump here pieces).filter fun l => r.isSome || l != loc := by
  have hp' := h.isPlain hp
  obtain ⟨c, hc⟩ := h.view_before hp
  -- A look-up goes on from directories only, and these are where they were.
  induction pieces generalizing here with
  | nil =>
    have hne : here ≠ loc := by
      rintro rfl
      rw [hd] at hc
      cases hc
    rw [walk, walk, Option.filter_some, if_pos (by simp [hne])]
  | cons piece rest ih =>
    rw [walk_cons hp, walk_cons hp']
    split
    · exact ih hd
    split
    · split
      · rfl
      · exact ih (view_dropLast hd)
    by_cases ht : here ++ [piece] = loc
    · rw [ht, hc, h.view_self hp]
      cases r <;> cases rest <;> simp [Option.filter_some]
    · rw [h.view_of_ne hp ht]
      cases hv : d.view (here ++ [piece]) with
      | none => simp
      | some v =>
        cases v with
        | none => exact ih hv
        | some c => cases rest <;> simp [Option.filter_some, ht]

theorem locate?_of_isPlain (hp : d.IsPlain) (last : Last) (p : FsPath) :
    d.locate? last p = if p.text.isEmpty || p.isAbsolute then none
      else walk d last (fun _ _ => none) [] (piecesOf p) := by
  unfold locate?
  split
  · rfl
  · exact walk_eq_of_isPlain hp last _ _ [] _

theorem Edit.canonical?_eq (h : Edit r loc d d') (hp : d.IsPlain) (p : FsPath) :
    d'.canonical? p = (d.canonical? p).filter fun l => r.isSome || l != loc := by
  rw [canonical?, canonical?, locate?_of_isPlain hp, locate?_of_isPlain (h.isPlain hp)]
  split
  · rfl
  · exact h.walk_eq hp _ _ _ d.view_root

/-- Where a look-up that follows to the end leads, one that does less leads as well. -/
theorem walk_eq_of_follow (hp : d.IsPlain) {jump : Location → List String → Option Location}
    {here l : Location} {pieces : List String} (last : Last)
    (h : walk d .follow jump here pieces = some l) : walk d last jump here pieces = some l := by
  -- By the pieces that are left. The two differ in the last piece only, if it is a link or is
  -- missing.
  induction pieces generalizing here with
  | nil =>
    rw [walk] at h ⊢
    exact h
  | cons piece rest ih =>
    rw [walk_cons hp] at h ⊢
    split at h
    case isTrue hf => rw [if_pos hf]; exact ih h
    case isFalse hf =>
    rw [if_neg hf]
    split at h
    case isTrue hu =>
      rw [if_pos hu]
      split at h
      case isTrue => cases h
      case isFalse he =>
        rw [if_neg he]
        exact ih h
    case isFalse hu =>
    rw [if_neg hu]
    split at h
    · exact ih h
    · exact h
    · simp at h

theorem locate?_of_canonical? (hp : d.IsPlain) (last : Last) {p : FsPath} {l : Location}
    (h : d.canonical? p = some l) : d.locate? last p = some l := by
  rw [canonical?, locate?_of_isPlain hp] at h
  rw [locate?_of_isPlain hp]
  split at h
  case isTrue => cases h
  case isFalse he =>
    rw [if_neg he]
    exact walk_eq_of_follow hp last h

/-! ## 5. What is there -/

theorem readText?_eq (d : Disk) (p : FsPath) :
    d.readText? p = (d.canonical? p).bind fun l =>
      match d.view l with
      | some (some (.text t)) => some t
      | _ => none := by
  rw [readText?, get?]
  cases d.canonical? p with
  | none => rfl
  | some l =>
    simp only [Option.bind_eq_bind, Option.bind_some, view]
    cases d.nodeAt? l with
    | none => rfl
    | some n =>
      cases n with
      | file c => cases c <;> rfl
      | _ => rfl

theorem isFile_eq (d : Disk) (p : FsPath) :
    d.isFile p = ((d.canonical? p).bind d.view).any Option.isSome := by
  rw [isFile, get?]
  cases d.canonical? p with
  | none => rfl
  | some l =>
    simp only [Option.bind_eq_bind, Option.bind_some, view]
    cases d.nodeAt? l with
    | none => rfl
    | some n => cases n <;> rfl

theorem isDirectory_eq (hp : d.IsPlain) (p : FsPath) :
    d.isDirectory p = ((d.canonical? p).bind d.view).any Option.isNone := by
  rw [isDirectory, get?]
  cases d.canonical? p with
  | none => rfl
  | some l =>
    simp only [Option.bind_eq_bind, Option.bind_some, view]
    cases hn : d.nodeAt? l with
    | none => rfl
    | some n =>
      cases n with
      | link target =>
        have hplain := Entries.IsPlain.nodeAt? hp hn
        rw [Node.IsPlain] at hplain
        exact hplain.elim
      | _ => rfl

theorem Edit.canonical?_of_ne (h : Edit r loc d d') (hp : d.IsPlain) {p : FsPath}
    (hl : d.canonical? p ≠ some loc) : d'.canonical? p = d.canonical? p := by
  rw [h.canonical?_eq hp]
  cases hc : d.canonical? p with
  | none => rfl
  | some l =>
    have hne : l ≠ loc := fun heq => hl (heq ▸ hc)
    rw [Option.filter_some, if_pos (by simp [hne])]

/-- What a name leads to that does not lead to the changed file stays as it is. -/
theorem Edit.bind_view_of_ne (h : Edit r loc d d') (hp : d.IsPlain) {p : FsPath}
    (hl : d.canonical? p ≠ some loc) :
    (d'.canonical? p).bind d'.view = (d.canonical? p).bind d.view := by
  rw [h.canonical?_of_ne hp hl]
  cases hc : d.canonical? p with
  | none => rfl
  | some l => exact h.view_of_ne hp fun heq => hl (heq ▸ hc)

theorem Edit.readText?_of_ne (h : Edit r loc d d') (hp : d.IsPlain) {p : FsPath}
    (hl : d.canonical? p ≠ some loc) : d'.readText? p = d.readText? p := by
  rw [readText?_eq, readText?_eq, h.canonical?_of_ne hp hl]
  cases hc : d.canonical? p with
  | none => rfl
  | some l =>
    rw [Option.bind_some, Option.bind_some, h.view_of_ne hp fun heq => hl (heq ▸ hc)]

theorem Edit.isFile_of_ne (h : Edit r loc d d') (hp : d.IsPlain) {p : FsPath}
    (hl : d.canonical? p ≠ some loc) : d'.isFile p = d.isFile p := by
  rw [isFile_eq, isFile_eq, h.bind_view_of_ne hp hl]

theorem Edit.isDirectory_eq (h : Edit r loc d d') (hp : d.IsPlain) (p : FsPath) :
    d'.isDirectory p = d.isDirectory p := by
  rw [Disk.isDirectory_eq hp, Disk.isDirectory_eq (h.isPlain hp)]
  by_cases hl : d.canonical? p = some loc
  · obtain ⟨c, hc⟩ := h.view_before hp
    rw [h.canonical?_eq hp, hl, Option.bind_some, hc, Option.filter_some]
    split
    · rw [Option.bind_some, h.view_self hp]
      cases r <;> rfl
    · rfl
  · rw [h.bind_view_of_ne hp hl]

theorem Edit.canonical?_written {c : Content} (h : Edit (some c) loc d d') (hp : d.IsPlain)
    (p : FsPath) : d'.canonical? p = d.canonical? p := by
  rw [h.canonical?_eq hp]
  cases d.canonical? p <;> rfl

theorem Edit.readText?_written {t : String} (h : Edit (some (.text t)) loc d d') (hp : d.IsPlain)
    {p : FsPath} (hl : d.canonical? p = some loc) : d'.readText? p = some t := by
  rw [readText?_eq, h.canonical?_written hp, hl, Option.bind_some, h.view_self hp]
  rfl

theorem Edit.isFile_written {c : Content} (h : Edit (some c) loc d d') (hp : d.IsPlain)
    (p : FsPath) : d'.isFile p = d.isFile p := by
  by_cases hl : d.canonical? p = some loc
  · obtain ⟨c', hc'⟩ := h.view_before hp
    rw [isFile_eq, isFile_eq, h.canonical?_written hp, hl, Option.bind_some, Option.bind_some,
      h.view_self hp, hc']
    rfl
  · exact h.isFile_of_ne hp hl

theorem Edit.canonical?_removed (h : Edit none loc d d') (hp : d.IsPlain) {p : FsPath}
    (hl : d.canonical? p = some loc) : d'.canonical? p = none := by
  rw [h.canonical?_eq hp, hl, Option.filter_some, if_neg (by simp)]

theorem Edit.isFile_removed (h : Edit none loc d d') (hp : d.IsPlain) {p : FsPath}
    (hl : d.canonical? p = some loc) : d'.isFile p = false := by
  rw [isFile_eq, h.canonical?_removed hp hl]
  rfl

/-! ## 6. Changes by name -/

theorem exists_concat_of_nodeAt? {l : Location} {c : Content}
    (h : d.nodeAt? l = some (.file c)) : ∃ dirs last, l = dirs ++ [last] := by
  rcases List.eq_nil_or_concat l with rfl | ⟨dirs, last, rfl⟩
  · cases h
  · exact ⟨dirs, last, List.concat_eq_append⟩

theorem edit_of_write (hp : d.IsPlain) {p : FsPath} {c old : Content}
    (hl : d.canonical? p = some loc) (hold : d.nodeAt? loc = some (.file old))
    (hw : d.write p c = some d') : Edit (some c) loc d d' := by
  obtain ⟨dirs, last, rfl⟩ := exists_concat_of_nodeAt? hold
  have hloc := locate?_of_canonical? hp .create hl
  simp only [write, hloc, Option.bind_eq_bind, Option.bind_some, hold, setAt,
    List.getLast?_concat, List.dropLast_concat, Option.bind_eq_some_iff] at hw
  obtain ⟨es', hup, hd⟩ := hw
  rw [← Option.some.inj hd]
  refine Entries.edit_of_updateAt (fun as bs has => ?_) hp hold hup
  rw [Entries.set_split _ has.split.1]
  have hedit := Entries.Edit.here (r := some c) as bs last old
  rw [Option.map_some, Option.toList_some, List.append_assoc] at hedit
  exact hedit

theorem edit_of_remove (hp : d.IsPlain) {p : FsPath} {old : Content}
    (hl : d.canonical? p = some loc) (hold : d.nodeAt? loc = some (.file old))
    (hr : d.remove p = some d') : Edit none loc d d' := by
  obtain ⟨dirs, last, rfl⟩ := exists_concat_of_nodeAt? hold
  have hloc := locate?_of_canonical? hp .keep hl
  simp only [remove, hloc, Option.bind_eq_bind, Option.bind_some, List.getLast?_concat,
    List.dropLast_concat, Option.bind_eq_some_iff] at hr
  obtain ⟨es', hup, hd⟩ := hr
  rw [← Option.some.inj hd]
  refine Entries.edit_of_updateAt (fun as bs has => ?_) hp hold hup
  rw [Entries.erase_split has.split.1 has.split.2.1]
  have hedit := Entries.Edit.here (r := none) as bs last old
  rw [Option.map_none, Option.toList_none, List.append_nil] at hedit
  exact hedit

end Disk

end EnumCatalog
