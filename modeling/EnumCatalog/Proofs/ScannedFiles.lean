import EnumCatalog.Loading
import EnumCatalog.Proofs.DiskFiles

/-!
# The source files below a directory

Which files are loaded from a directory is decided by the names under which a walk finds them: by
their endings, and by the names of the directories on the way down. On a plain disk those names are
the names of the locations below the directory (`Disk.parts_of_mem_locatedIn`), however the name of
the directory itself is written. So a file is loaded if and only if it stands at a location that
goes on from that of the directory to a file of sources, and not by way of generated output or of
what a build leaves behind (`Loading.exists_mem_sourceFiles_iff`).
-/

set_option autoImplicit false

namespace EnumCatalog

/-! ## 1. Parts of names -/

namespace FsPath

/-- What a body is cut into makes up the name, apart from its start. -/
theorem filter_pieces_split (cs : List Char) :
    (pieces (split cs).2).filter (!isFiller ·) = (pieces cs).filter (!isFiller ·) := by
  unfold split
  split <;> rfl

theorem split_fst_append_snd (cs : List Char) : (split cs).1 ++ (split cs).2 = cs := by
  unfold split
  split <;> rfl

theorem joinPieces_pieces (cs : List Char) : joinPieces (pieces cs) = cs := by
  induction cs with
  | nil => rfl
  | cons c cs ih =>
    obtain ⟨q, qs, hq⟩ := List.exists_cons_of_ne_nil (pieces_ne_nil cs)
    rw [pieces, hq]
    rw [hq] at ih
    split
    case isTrue hc =>
      rw [beq_iff_eq.mp hc, ← ih]
      rfl
    case isFalse =>
      rw [← ih]
      cases qs <;> rfl

/-- What comes behind a slash leaves the start of a name as it is. -/
theorem split_append_slash {cs : List Char} (h : cs ≠ []) (ds : List Char) :
    split (cs ++ '/' :: ds) = ((split cs).1, (split cs).2 ++ '/' :: ds) := by
  obtain ⟨c, rest, rfl⟩ := List.exists_cons_of_ne_nil h
  by_cases htop : c = '/'
  · subst htop
    rfl
  by_cases hdot : c = '.'
  · subst hdot
    cases rest with
    | nil => rfl
    | cons c rest =>
      by_cases hslash : c = '/'
      · subst hslash
        rfl
      · simp [split, hslash]
  · simp [split, htop, hdot]

/-- What has no slash and is no dot has no start. -/
theorem split_of_not_mem {cs : List Char} (hslash : '/' ∉ cs) (hdot : cs ≠ ['.']) :
    split cs = ([], cs) := by
  unfold split
  split
  · exact absurd List.mem_cons_self hslash
  · exact absurd rfl hdot
  · exact absurd (List.mem_cons_of_mem _ List.mem_cons_self) hslash
  · rfl

/-- The parts of a name are its start and the pieces of the whole text. -/
theorem parts_eq (p : FsPath) : p.parts = (startPart (split p.text.toList).1).toList ++
    ((pieces p.text.toList).filter (!isFiller ·)).map bodyPart := by
  rw [← filter_pieces_split]
  rfl

theorem isFiller_entryName {name : String} (h : IsEntryName name) :
    isFiller name.toList = false := by
  rw [isFiller, Bool.or_eq_false_iff, beq_eq_false_iff_ne, beq_eq_false_iff_ne]
  exact ⟨mt String.toList_eq_nil_iff.mp h.1, fun heq => h.2.1 (String.toList_inj.mp heq)⟩

theorem pieces_entryName {name : String} (h : IsEntryName name) :
    (pieces name.toList).filter (!isFiller ·) = [name.toList] := by
  rw [pieces_of_not_mem h.2.2.2, List.filter_cons_of_pos (by rw [isFiller_entryName h]; rfl),
    List.filter_nil]

theorem bodyPart_entryName {name : String} (h : IsEntryName name) :
    bodyPart name.toList = .name name := by
  have hup : (name.toList == ['.', '.']) = false := by
    rw [beq_eq_false_iff_ne]
    exact fun heq => h.2.2.1 (String.toList_inj.mp heq)
  rw [bodyPart, hup, if_neg Bool.false_ne_true, String.ofList_toList]

/-- An entry's name has no start. -/
theorem split_entryName {name : String} (h : IsEntryName name) :
    split name.toList = ([], name.toList) :=
  split_of_not_mem h.2.2.2 fun heq => h.2.1 (String.toList_inj.mp heq)

/-- An entry's name has one part. -/
theorem parts_entryName {name : String} (h : IsEntryName name) :
    (⟨name⟩ : FsPath).parts = [.name name] := by
  rw [parts_eq, split_entryName h, pieces_entryName h, List.map_singleton, bodyPart_entryName h]
  rfl

/-- The name made up of a directory's and of an entry's has one part more than the directory's. -/
theorem parts_join {dir : FsPath} {name : String} (hdir : dir.text ≠ "") (h : IsEntryName name) :
    (dir.join ⟨name⟩).parts = dir.parts ++ [.name name] := by
  have hchars : dir.text.toList ≠ [] := mt String.toList_eq_nil_iff.mp hdir
  obtain ⟨-, front, hfront, hdirText⟩ := text_join hdir h.2.2.2
  have hpieces : (pieces front).filter (!isFiller ·) =
      (pieces dir.text.toList).filter (!isFiller ·) := by
    rcases hdirText with heq | heq
    · rw [heq]
    · rw [heq, pieces_append_slash, List.filter_append]
      exact (List.append_nil _).symm
  have hstart : (split (front ++ '/' :: name.toList)).1 = (split dir.text.toList).1 := by
    rcases hdirText with heq | heq
    · rw [← heq, split_append_slash hchars]
    · cases front with
      | nil => rw [heq]; rfl
      | cons c front => rw [heq, split_append_slash (List.cons_ne_nil _ _),
          split_append_slash (List.cons_ne_nil _ _)]
  rw [parts_eq, parts_eq, hfront, hstart, pieces_append_slash, List.filter_append, hpieces,
    pieces_entryName h, List.map_append, List.map_singleton, bodyPart_entryName h,
    List.append_assoc]

theorem text_join_ne {dir : FsPath} {name : String} (hdir : dir.text ≠ "") (h : IsEntryName name) :
    (dir.join ⟨name⟩).text ≠ "" :=
  text_join_of_relative_ne hdir (isAbsolute_of_not_mem h.2.2.2)

/-- The ending of a name is that of its last part. -/
theorem extension?_eq_of_parts {p : FsPath} {above : List Part} {name : String}
    (hp : p.parts = above ++ [.name name]) (h : IsEntryName name) :
    p.extension? = (⟨name⟩ : FsPath).extension? := by
  have hname : p.fileName? = (⟨name⟩ : FsPath).fileName? := by
    rw [fileName?, fileName?, hp, parts_entryName h, List.getLast?_concat, List.getLast?_singleton]
  rw [extension?, extension?, hname]

end FsPath

/-! ## 2. The files that a walk finds -/

namespace Disk

variable {d : Disk}

mutual

/-- The parts of a name made up on the way down are those of the directory and the names below. -/
theorem parts_of_mem_locatedAt {p f : FsPath} {l m : Location} {n : Node} (hp : n.IsPlain)
    (htext : p.text ≠ "") (h : (f, m) ∈ locatedAt p l n) :
    ∃ below, m = l ++ below ∧ f.parts = p.parts ++ below.map .name ∧
      ∀ name ∈ below, IsEntryName name := by
  cases n with
  | file c =>
    rw [locatedAt, List.mem_singleton] at h
    cases h
    refine ⟨[], (List.append_nil l).symm, (List.append_nil _).symm, fun _ hname => ?_⟩
    cases hname
  | directory es =>
    rw [locatedAt] at h
    rw [Node.IsPlain] at hp
    obtain ⟨below, hm, hparts, -, hnames⟩ := parts_of_mem_locatedIn hp htext h
    exact ⟨below, hm, hparts, hnames⟩
  | link target =>
    rw [locatedAt] at h
    cases h

theorem parts_of_mem_locatedIn {dir f : FsPath} {l m : Location} {es : List (String × Node)}
    (hp : Entries.IsPlain es) (htext : dir.text ≠ "") (h : (f, m) ∈ locatedIn dir l es) :
    ∃ below, m = l ++ below ∧ f.parts = dir.parts ++ below.map .name ∧ below ≠ [] ∧
      ∀ name ∈ below, IsEntryName name := by
  cases es with
  | nil =>
    rw [locatedIn] at h
    cases h
  | cons e es =>
    obtain ⟨name, n⟩ := e
    rw [Entries.IsPlain] at hp
    obtain ⟨hname, hn, -, hes⟩ := hp
    rw [locatedIn, List.mem_append] at h
    rcases h with h | h
    · obtain ⟨below, hm, hparts, hnames⟩ :=
        parts_of_mem_locatedAt hn (FsPath.text_join_ne htext hname) h
      refine ⟨name :: below, ?_, ?_, List.cons_ne_nil _ _, List.forall_mem_cons.mpr ⟨hname, hnames⟩⟩
      · rw [hm, List.append_assoc, List.singleton_append]
      · rw [hparts, FsPath.parts_join htext hname, List.append_assoc, List.singleton_append,
          List.map_cons]
    · exact parts_of_mem_locatedIn hes htext h

end

theorem text_ne_of_canonical? {p : FsPath} {l : Location} (h : d.canonical? p = some l) :
    p.text ≠ "" := by
  intro hempty
  simp [canonical?, locate?, hempty] at h

end Disk

/-! ## 3. Source files -/

namespace Loading

variable {d : Disk} {o : Cfg.Options} {scanPath : FsPath}

theorem files_scan (d : Disk) (o : Cfg.Options) (scanPath : FsPath) :
    (scan d o scanPath).files = (sourceFiles d scanPath).filterMap fun f =>
      (loadFile d (ModuleTree.ofRoot d o (sourceRoot scanPath)).tree f).toOption := by
  rw [scan, List.filterMap_map]
  refine List.filterMap_congr fun f _ => ?_
  rw [Function.comp_apply]
  cases loadFile d (ModuleTree.ofRoot d o (sourceRoot scanPath)).tree f <;> rfl

/-- The source files below a directory with their locations. -/
def locatedSources (d : Disk) (scanPath : FsPath) : List (FsPath × Location) :=
  (d.located scanPath).filter fun x => x.1.extension? == some "rs" && !isExcluded scanPath x.1

theorem map_fst_locatedSources (d : Disk) (scanPath : FsPath) :
    (locatedSources d scanPath).map Prod.fst = sourceFiles d scanPath := by
  rw [sourceFiles, ← Disk.map_fst_located, List.filter_map]
  rfl

theorem canonical?_of_mem_locatedSources (hp : d.IsPlain) {x : FsPath × Location}
    (hx : x ∈ locatedSources d scanPath) : d.canonical? x.1 = some x.2 :=
  Disk.canonical?_of_mem_located hp (List.mem_of_mem_filter hx)

theorem exists_canonical?_of_mem_sourceFiles (hp : d.IsPlain) {f : FsPath}
    (hf : f ∈ sourceFiles d scanPath) : ∃ l, d.canonical? f = some l := by
  rw [← map_fst_locatedSources] at hf
  obtain ⟨x, hx, rfl⟩ := List.mem_map.mp hf
  exact ⟨x.2, canonical?_of_mem_locatedSources hp hx⟩

theorem nodup_locatedSources (hp : d.IsPlain) (scanPath : FsPath) :
    ((locatedSources d scanPath).map Prod.snd).Nodup :=
  (Disk.nodup_located hp scanPath).sublist (List.filter_sublist.map _)

theorem exists_mem_locatedSources_iff (hp : d.IsPlain) {l : Location} :
    (∃ f ∈ sourceFiles d scanPath, d.canonical? f = some l) ↔
      ∃ f, (f, l) ∈ locatedSources d scanPath := by
  rw [← map_fst_locatedSources]
  constructor
  · rintro ⟨f, hf, hl⟩
    obtain ⟨⟨g, k⟩, hg, rfl⟩ := List.mem_map.mp hf
    rw [canonical?_of_mem_locatedSources hp hg, Option.some.injEq] at hl
    exact ⟨g, hl ▸ hg⟩
  · rintro ⟨f, hf⟩
    exact ⟨f, List.mem_map.mpr ⟨_, hf, rfl⟩, canonical?_of_mem_locatedSources hp hf⟩

theorem path_of_loadFile {tree : ModuleTree} {f : FsPath} {u : SourceUnit}
    (h : (loadFile d tree f).toOption = some u) : u.path = f := by
  unfold loadFile at h
  split at h
  · rw [← Option.some.inj h]
  · split at h
    · cases h
    · split at h
      · cases h
      · rw [← Option.some.inj h]

/-- At a location a file stands that is loaded from the directory at another: it is below, its name
ends as those of sources do, and on the way there is neither generated output nor what a build
leaves behind. -/
def HoldsSource (d : Disk) (root l : Location) : Prop :=
  ∃ above name c, l = root ++ (above ++ [name]) ∧ d.nodeAt? l = some (.file c) ∧
    (⟨name⟩ : FsPath).extension? = some "rs" ∧ "generated" ∉ above ++ [name] ∧
    "target" ∉ above ++ [name]

/-- The parts below the directory that is scanned decide what is left out. -/
theorem isExcluded_eq_false_iff {f : FsPath} {below : List String}
    (hf : f.parts = scanPath.parts ++ below.map .name) :
    isExcluded scanPath f = false ↔ "generated" ∉ below ∧ "target" ∉ below := by
  have hbelow : f.partsBelow scanPath = below.map .name := by
    rw [FsPath.partsBelow, hf, if_pos (List.isPrefixOf_iff_prefix.mpr (List.prefix_append _ _)),
      List.drop_left]
  rw [isExcluded, hbelow, List.any_map, List.any_eq_false]
  simp only [Function.comp_apply, Bool.or_eq_true, beq_iff_eq, FsPath.Part.name.injEq, not_or]
  constructor
  · intro h
    exact ⟨fun hmem => (h _ hmem).1 rfl, fun hmem => (h _ hmem).2 rfl⟩
  · rintro ⟨hgenerated, htarget⟩ n hn
    exact ⟨fun heq => hgenerated (heq ▸ hn), fun heq => htarget (heq ▸ hn)⟩

/-- The files that are loaded from a directory are those that stand at the locations of sources. -/
theorem exists_mem_sourceFiles_iff (hp : d.IsPlain) {root l : Location}
    (hroot : d.canonical? scanPath = some root) (hdir : d.isDirectory scanPath = true) :
    (∃ f ∈ sourceFiles d scanPath, d.canonical? f = some l) ↔ HoldsSource d root l := by
  obtain ⟨es, hes⟩ := Disk.exists_entries_of_isDirectory hroot hdir
  have hlocated : d.located scanPath = Disk.locatedIn scanPath root es :=
    Disk.located_eq hroot hes
  have hplain := Entries.IsPlain.nodeAt? hp hes
  rw [Node.IsPlain] at hplain
  have htext : scanPath.text ≠ "" := Disk.text_ne_of_canonical? hroot
  -- Whether a file that the walk finds is loaded depends on the names below the directory.
  have loaded {f : FsPath} {above : List String} {name : String}
      (hf : (f, root ++ (above ++ [name])) ∈ d.located scanPath) :
      (f.extension? == some "rs" && !isExcluded scanPath f) = true ↔
        (⟨name⟩ : FsPath).extension? = some "rs" ∧ "generated" ∉ above ++ [name] ∧
          "target" ∉ above ++ [name] := by
    rw [hlocated] at hf
    obtain ⟨below, hm, hparts, -, hnames⟩ := Disk.parts_of_mem_locatedIn hplain htext hf
    obtain rfl := List.append_cancel_left hm
    have hlast : f.parts = (scanPath.parts ++ above.map .name) ++ [.name name] := by
      rw [hparts, List.map_append, List.map_singleton, List.append_assoc]
    rw [Bool.and_eq_true, beq_iff_eq, Bool.not_eq_true', isExcluded_eq_false_iff hparts,
      FsPath.extension?_eq_of_parts hlast (hnames name (by simp))]
  rw [exists_mem_locatedSources_iff hp]
  constructor
  · rintro ⟨f, hf⟩
    obtain ⟨hmem, hcond⟩ := List.mem_filter.mp hf
    obtain ⟨first, s, c, rfl, hat⟩ := Disk.exists_of_mem_locatedIn hplain (hlocated ▸ hmem)
    obtain ⟨above, name, hbelow⟩ := (first :: s).eq_nil_or_concat'.resolve_left
      (List.cons_ne_nil first s)
    rw [hbelow] at hmem hat
    obtain ⟨hends, hout⟩ := (loaded hmem).mp hcond
    refine ⟨above, name, c, by rw [hbelow], ?_, hends, hout⟩
    rw [hbelow, Disk.nodeAt?_append, hes, Option.bind_some, Entries.at?_directory]
    exact hat
  · rintro ⟨above, name, c, rfl, hnode, hends, hout⟩
    rw [Disk.nodeAt?_append, hes, Option.bind_some, Entries.at?_directory] at hnode
    have hmem : root ++ (above ++ [name]) ∈ (Disk.locatedIn scanPath root es).map Prod.snd := by
      cases above with
      | nil => exact Disk.mem_locatedIn_of_nodeAt? scanPath root hnode
      | cons first above => exact Disk.mem_locatedIn_of_nodeAt? scanPath root hnode
    obtain ⟨⟨f, _⟩, hf, rfl⟩ := List.mem_map.mp hmem
    have hfound : (f, root ++ (above ++ [name])) ∈ d.located scanPath := hlocated ▸ hf
    exact ⟨f, List.mem_filter.mpr ⟨hfound, (loaded hfound).mpr ⟨hends, hout⟩⟩⟩

/-- The program of the files below directories. -/
def programOf (d : Disk) (o : Cfg.Options) (scanPaths : List FsPath) : Program :=
  ⟨scanPaths.flatMap fun s => (scan d o s).files, o⟩

/-- Directories are loaded one after the other, and the first name that is none is the error. -/
theorem scanAll_eq (d : Disk) (o : Cfg.Options) (scanPaths : List FsPath) :
    (scanAll d o scanPaths).2 = match scanPaths.find? (!d.isDirectory ·) with
      | some p => .error p
      | none => .ok (programOf d o scanPaths).files := by
  induction scanPaths with
  | nil => rfl
  | cons s rest ih =>
    rw [scanAll, List.find?_cons]
    cases hdir : d.isDirectory s with
    | false => rfl
    | true =>
      simp only [if_true, Bool.not_true]
      rw [ih]
      cases rest.find? (!d.isDirectory ·) with
      | some p => rfl
      | none => rfl

/-- What a load comes to, apart from the reports on the way. -/
theorem load_eq (d : Disk) (o : Cfg.Options) (scanPaths : List FsPath) :
    (Program.load d o scanPaths).2 = match scanPaths.find? (!d.isDirectory ·) with
      | some p => .error p
      | none => .ok (programOf d o scanPaths) := by
  have hload : (Program.load d o scanPaths).2 = (scanAll d o scanPaths).2.map (⟨·, o⟩) := by
    unfold Program.load
    rcases scanAll d o scanPaths with ⟨events, p | files⟩ <;> rfl
  rw [hload, scanAll_eq]
  cases scanPaths.find? (!d.isDirectory ·) with
  | some p => rfl
  | none => rfl

/-- A program is loaded if and only if each name is that of a directory. -/
theorem load_eq_ok_iff_forall {scanPaths : List FsPath} {p : Program} :
    (Program.load d o scanPaths).2 = .ok p ↔
      (∀ s ∈ scanPaths, d.isDirectory s = true) ∧ p = programOf d o scanPaths := by
  rw [load_eq]
  cases hfind : scanPaths.find? (!d.isDirectory ·) with
  | some q =>
    have hq : d.isDirectory q = false := by simpa using List.find?_some hfind
    refine iff_of_false (fun h => by cases h) fun h => ?_
    rw [h.1 q (List.mem_of_find?_eq_some hfind)] at hq
    cases hq
  | none =>
    have hall : ∀ s ∈ scanPaths, d.isDirectory s = true := by simpa using hfind
    constructor
    · intro h
      exact ⟨hall, (Except.ok.inj h).symm⟩
    · rintro ⟨-, rfl⟩
      rfl

/-- The program of the files below a directory. -/
def program (d : Disk) (o : Cfg.Options) (scanPath : FsPath) : Program :=
  ⟨(scan d o scanPath).files, o⟩

/-- A directory is loaded by itself. -/
theorem load_eq_ok_iff {p : Program} :
    (Program.load d o [scanPath]).2 = .ok p ↔
      d.isDirectory scanPath = true ∧ p = program d o scanPath := by
  have hprogram : programOf d o [scanPath] = program d o scanPath := by
    rw [programOf, program, List.flatMap_singleton]
  rw [load_eq_ok_iff_forall, List.forall_mem_singleton, hprogram]

end Loading

end EnumCatalog
