import EnumCatalog.Proofs.Delivery
import EnumCatalog.Proofs.Parsing
import EnumCatalog.Proofs.ReadingBack

/-!
# Qualified names are paths

The name by which generated code is to name an enum is put together as a text, and rendering reads
it as a path again. That cannot fail: what modules and enums are called can be written as
identifiers, if need be with the raw mark that `ModulePath.segmentText` puts in front
(`exists_ident_segmentText`). And nothing is lost on the way: the path has the names of the crate,
the modules and the enum (`ModulePath.exists_parse?_qualify`). So for a program that was read from
source texts, whatever is extracted can be rendered (`exists_render_extract`), and its names read
back.
-/

set_option autoImplicit false

namespace EnumCatalog

open Syntax (Item NamePath)

/-- A name that can be written as an identifier, with a raw mark if need be. -/
def IsPathName (n : String) : Prop := IsIdentName n ∧ n ∉ neverRaw

/-! ## 1. Segments -/

theorem tokens?_ident (i : Ident) : Lexer.tokens? i.text = some [.ident i] := by
  have hread : Lexer.tokens? (String.ofList (Lexer.textOf [.ident i])) = some [.ident i] :=
    Lexer.tokens?_textOf rfl rfl
  have htext : String.ofList (Lexer.textOf [.ident i]) = i.text := by
    rw [Lexer.textOf_cons, show Lexer.textOf [] = [] from rfl, List.append_nil]
    exact String.ofList_toList
  rwa [htext] at hread

/-- What is read as a name can be one. -/
theorem isName_of_isSome_parse? {i : Ident} (h : (Syntax.Ident.parse? i.text).isSome = true) :
    i.isName = true := by
  rw [Syntax.Ident.parse?, tokens?_ident] at h
  obtain ⟨j, hj⟩ := Option.isSome_iff_exists.mp h
  change Syntax.Reader.name.run? [.ident i] = some j at hj
  unfold Syntax.Reader.run? at hj
  split at hj
  next k c hrun =>
    obtain ⟨hrest, hname⟩ := Syntax.Reader.rest_of_name hrun
    obtain ⟨heq, -⟩ := List.cons.inj hrest
    exact Token.ident.inj heq ▸ hname
  next => cases hj

/-- The segment for a name that can be written as an identifier is that identifier. -/
theorem exists_ident_segmentText {n : String} (h : IsPathName n) :
    ∃ i : Ident, i.isSegment = true ∧ i.name = n ∧ i.text = ModulePath.segmentText n := by
  unfold ModulePath.segmentText
  split
  case isTrue hparse =>
    refine ⟨.plain n h.1, Ident.isSegment_of_isName (isName_of_isSome_parse? ?_), rfl, rfl⟩
    exact hparse
  case isFalse =>
    have hraw : (true && neverRaw.contains n) = false := by
      rw [Bool.true_and, Bool.eq_false_iff]
      exact fun hmem => h.2 (List.contains_iff_mem.mp hmem)
    exact ⟨⟨true, n, h.1, hraw⟩, Ident.isSegment_of_isName rfl, rfl, rfl⟩

theorem exists_idents_segmentText {ns : List String} (h : ∀ n ∈ ns, IsPathName n) :
    ∃ is : List Ident, (∀ i ∈ is, i.isSegment = true) ∧ is.map (·.name) = ns ∧
      is.map (·.text) = ns.map ModulePath.segmentText := by
  induction ns with
  | nil => exact ⟨[], fun i hi => absurd hi List.not_mem_nil, rfl, rfl⟩
  | cons n ns ih =>
    rw [List.forall_mem_cons] at h
    obtain ⟨i, hi, hname, htext⟩ := exists_ident_segmentText h.1
    obtain ⟨is, his, hnames, htexts⟩ := ih h.2
    refine ⟨i :: is, List.forall_mem_cons.mpr ⟨hi, his⟩, ?_, ?_⟩
    · rw [List.map_cons, hname, hnames]
    · rw [List.map_cons, List.map_cons, htext, htexts]

/-! ## 2. Qualified names -/

namespace Syntax.NamePath

/-- The path with names behind it. -/
def append (p : NamePath) (is : List Ident) (his : ∀ i ∈ is, i.isSegment = true) : NamePath where
  leading := p.leading
  first := p.first
  others := p.others ++ is
  isSegment := by
    intro i hi
    rw [← List.cons_append, List.mem_append] at hi
    exact hi.elim (p.isSegment i) (his i)

@[simp] theorem names_toPath (p : NamePath) :
    p.toPath.names = (p.first :: p.others).map (·.name) := by
  simp [toPath, Path.names]

theorem rootedWords_append (as bs : List Ident) :
    rootedWords (as ++ bs) = rootedWords as ++ rootedWords bs := by
  induction as with
  | nil => rfl
  | cons a as ih => rw [List.cons_append, rootedWords, rootedWords, ih, List.cons_append,
      List.cons_append]

theorem text_append (p : NamePath) (is : List Ident) (his : ∀ i ∈ is, i.isSegment = true) :
    (p.append is his).text = p.text ++ String.join (rootedWords is) := by
  have hwords : (p.append is his).words = p.words ++ rootedWords is := by
    show _ ++ p.first.text :: rootedWords (p.others ++ is) = _
    rw [rootedWords_append, words, List.append_assoc, List.cons_append]
    rfl
  rw [text, hwords, String.join_append, text]

end Syntax.NamePath

/-- Names between double colons, the first of which may be any text. -/
theorem intercalate_eq_join (s : String) (is : List Ident) :
    String.intercalate "::" (s :: is.map (·.text)) =
      s ++ String.join (NamePath.rootedWords is) := by
  induction is generalizing s with
  | nil => simp [NamePath.rootedWords]
  | cons i is ih =>
    rw [List.map_cons, String.intercalate_cons_of_ne_nil (List.cons_ne_nil _ _), ih,
      NamePath.rootedWords, String.join_cons, String.join_cons, String.append_assoc]

/-- A path goes on from another by names, raw marks aside. -/
structure Syntax.NamePath.GoesOn (crate p : NamePath) (names : List String) : Prop where
  leading : p.leading = crate.leading
  names : p.toPath.names = crate.toPath.names ++ names

/-- A qualified name is the text of a path, which goes on from the crate's name by those of the
modules and the item. -/
theorem ModulePath.exists_text_eq_qualify (crate : NamePath) {m : ModulePath} {item : String}
    (hnames : ∀ n ∈ m.names ++ [item], IsPathName n) :
    ∃ p : NamePath, p.text = m.qualify crate.text item ∧ crate.GoesOn p (m.names ++ [item]) := by
  obtain ⟨is, his, hnames, htexts⟩ := exists_idents_segmentText hnames
  refine ⟨crate.append is his, ?_, rfl, ?_⟩
  · rw [NamePath.text_append, qualify, ← htexts, intercalate_eq_join]
  · simp [NamePath.append, hnames]

/-- A qualified name is read as a path of the names that it was put together from. -/
theorem ModulePath.exists_parse?_qualify (crate : NamePath) {m : ModulePath} {item : String}
    (hnames : ∀ n ∈ m.names ++ [item], IsPathName n) :
    ∃ p : NamePath, Syntax.Path.parse? (m.qualify crate.text item) = some p.toPath ∧
      crate.GoesOn p (m.names ++ [item]) := by
  obtain ⟨p, htext, hgoes⟩ := m.exists_text_eq_qualify crate hnames
  exact ⟨p, htext ▸ p.parse?_of_tokens p.tokens?_text, hgoes⟩

/-- So the modules and the item are read off it again. -/
theorem ModulePath.eq_of_qualify_eq (crate : NamePath) {m m' : ModulePath} {item item' : String}
    (hnames : ∀ n ∈ m.names ++ [item], IsPathName n)
    (hnames' : ∀ n ∈ m'.names ++ [item'], IsPathName n)
    (h : m.qualify crate.text item = m'.qualify crate.text item') : m = m' ∧ item = item' := by
  obtain ⟨p, hparse, hgoes⟩ := m.exists_parse?_qualify crate hnames
  obtain ⟨p', hparse', hgoes'⟩ := m'.exists_parse?_qualify crate hnames'
  rw [h, hparse'] at hparse
  have hsame := hgoes.names
  rw [← Option.some.inj hparse, hgoes'.names, List.append_cancel_left_eq] at hsame
  obtain ⟨hmodules, hitems⟩ := List.append_inj' hsame rfl
  obtain ⟨_⟩ := m
  obtain ⟨_⟩ := m'
  exact ⟨congrArg ModulePath.mk hmodules.symm, (List.singleton_inj.mp hitems).symm⟩

/-! ## 3. What is extracted can be rendered -/

namespace Artifact

/-- What reads as paths makes an artifact. -/
theorem exists_render {ds : List Descriptor}
    (h : ∀ d ∈ ds, ∃ q, Syntax.Path.parse? d.qualifiedName = some q) (runtime : Syntax.Path)
    (log : Option (List String)) : ∃ code, render ds runtime log = .ok code := by
  have hentries : ∃ entries, ds.mapM entryOf = .ok entries := by
    induction ds with
    | nil => exact ⟨[], rfl⟩
    | cons d ds ih =>
      rw [List.forall_mem_cons] at h
      obtain ⟨⟨q, hq⟩, hds⟩ := h
      obtain ⟨entries, hentries⟩ := ih hds
      have hentry : entryOf d = .ok ⟨q, d.aliasName⟩ := by
        unfold entryOf
        rw [hq]
      refine ⟨⟨q, d.aliasName⟩ :: entries, ?_⟩
      rw [List.mapM_cons, hentry, hentries]
      rfl
  obtain ⟨entries, hentries⟩ := hentries
  unfold render ofDescriptors
  rw [hentries]
  exact ⟨_, rfl⟩

end Artifact

namespace Program

/-- What the program's modules and enums are called can be written as identifiers. -/
def HasPathNames (p : Program) : Prop :=
  ∀ u ∈ p.files, (∀ m, u.module? = some m → ∀ n ∈ m.names, IsPathName n) ∧
    Item.AllHaveNames u.source.items

theorem HasPathNames.hasNamedModules {p : Program} (h : p.HasPathNames) : p.HasNamedModules := by
  intro u hu m hm n hn
  exact ((h u hu).1 m hm n hn).1

/-- A program whose modules are called by names, and whose files were read from source texts. -/
theorem hasPathNames_of_read {p : Program}
    (hmodules : ∀ u ∈ p.files, ∀ m, u.module? = some m → ∀ n ∈ m.names, IsPathName n)
    (hread : ∀ u ∈ p.files, ∃ text, Syntax.SourceFile.parse? text = some u.source) :
    p.HasPathNames := by
  intro u hu
  obtain ⟨text, htext⟩ := hread u hu
  exact ⟨hmodules u hu, Syntax.SourceFile.allHaveNames_of_parse? htext⟩

theorem HasPathNames.isPathName {p : Program} (h : p.HasPathNames) {c : Candidate} {u : SourceUnit}
    {s : Site} {path : ModulePath} (hr : p.Registrable c u s path) :
    ∀ n ∈ path.names ++ [c.name], IsPathName n := by
  obtain ⟨hmodules, hitems⟩ := h u hr.file
  obtain ⟨hheads, henum⟩ := Item.AllHaveNames.of_fill (hr.site ▸ hitems)
  obtain ⟨root, hroot, rfl, -⟩ := hr.nameable
  refine List.forall_mem_append.mpr ⟨List.forall_mem_append.mpr ⟨hmodules root hroot, ?_⟩,
    List.forall_mem_singleton.mpr ⟨isIdentName_ident _, ?_⟩⟩
  · intro n hn
    obtain ⟨head, hhead, rfl⟩ := List.mem_map.mp hn
    exact ⟨isIdentName_ident _, hheads head hhead⟩
  · have hlast := Item.allHaveNames_iff.mp henum (.enum c.enum) (List.mem_singleton_self _)
    rw [Item.HasNames] at hlast
    exact hlast

/-- What is found under any cancellation are descriptions of live candidates. -/
theorem exists_sublist_describe (p : Program) (m : Marker) (crateName : String)
    (stop : Cancellation) :
    ∃ cs : List Candidate, cs.Sublist p.liveCandidates ∧
      List.Forall₂ (fun c d => c ∈ p.liveCandidates ∧ c.describe p.scopes m crateName = some d) cs
        (p.extract m crateName stop).descriptors := by
  unfold extract
  split
  case isTrue =>
    obtain ⟨kept, hkept, hall⟩ :=
      exists_sublist_forall₂_filterMap (·.describe p.scopes m crateName) p.liveCandidates
    obtain ⟨n, hn⟩ := Extraction.exists_descriptors_pass_eq_take stop
      (Extraction.examine p.scopes m crateName) 0 p.liveCandidates
    refine ⟨kept.take n, (List.take_sublist n kept).trans hkept, ?_⟩
    show List.Forall₂ _ _ (Extraction.pass stop _ 0 p.liveCandidates).descriptors
    rw [hn]
    exact List.forall₂_take n hall
  case isFalse => exact ⟨[], List.nil_sublist _, .nil⟩

/-- A descriptor is that of a candidate in a module, whose name is read as a path that goes on from
the crate's name by those of the modules and the enum. -/
def ReadsBack (crate : NamePath) (c : Candidate) (d : Descriptor) : Prop :=
  ∃ path : ModulePath, c.module? = some path ∧ (∀ n ∈ path.names ++ [c.name], IsPathName n) ∧
    d.qualifiedName = path.qualify crate.text c.name ∧
    ∃ q : NamePath, Syntax.Path.parse? d.qualifiedName = some q.toPath ∧
      crate.GoesOn q (path.names ++ [c.name])

theorem exists_parse?_of_readsBack {crate : NamePath} {cs : List Candidate} {ds : List Descriptor}
    (h : List.Forall₂ (ReadsBack crate) cs ds) :
    ∀ d ∈ ds, ∃ q, Syntax.Path.parse? d.qualifiedName = some q := by
  induction h with
  | nil => exact fun d hd => absurd hd List.not_mem_nil
  | cons hd _ ih =>
    obtain ⟨_, -, -, -, q, hparse, -⟩ := hd
    exact List.forall_mem_cons.mpr ⟨⟨q.toPath, hparse⟩, ih⟩

theorem HasPathNames.readsBack {p : Program} (h : p.HasPathNames) (crate : NamePath) {m : Marker}
    {c : Candidate} {d : Descriptor} (hc : c ∈ p.liveCandidates)
    (hd : c.describe p.scopes m crate.text = some d) : ReadsBack crate c d := by
  obtain ⟨-, -, path, hnameable, hname⟩ := Candidate.describe_eq_some_iff.mp hd
  obtain ⟨u, s, hr⟩ := registrable_of_nameableIn (p.liveCandidates_sublist.subset hc) hnameable
    (enabled_ne_false_of_mem_liveCandidates hc)
  have hnames := h.isPathName hr
  exact ⟨path, hnameable.1, hnames, hname, hname ▸ path.exists_parse?_qualify crate hnames⟩

/-- What is extracted from a program that was read from source texts can be rendered, whatever the
log says and whenever the pass was cancelled. -/
theorem HasPathNames.exists_render_extract {p : Program} (h : p.HasPathNames) (m : Marker)
    (crate : NamePath) (runtime : Syntax.Path) (stop : Cancellation) (log : Option (List String)) :
    ∃ code, Artifact.render (p.extract m crate.text stop).descriptors runtime log = .ok code := by
  obtain ⟨cs, -, hall⟩ := p.exists_sublist_describe m crate.text stop
  have hpaths : List.Forall₂ (ReadsBack crate) cs
      (p.extract m crate.text stop).descriptors :=
    hall.imp fun _ _ hd => h.readsBack crate hd.1 hd.2
  exact Artifact.exists_render (exists_parse?_of_readsBack hpaths) runtime log

/-- **Names read back.** Let a program be read from source texts, with modules that are called by
names. Whatever is extracted from it under a crate name that is a path, rendering succeeds. Each
qualified name is that of a candidate in a module, and is read as a path with the names of the crate
name, the module and the enum, raw marks aside. And different modules or names, keywords included,
make different qualified names. -/
theorem render_extract_readsBack {p : Program}
    (hmodules : ∀ u ∈ p.files, ∀ m, u.module? = some m → ∀ n ∈ m.names, IsPathName n)
    (hread : ∀ u ∈ p.files, ∃ text, Syntax.SourceFile.parse? text = some u.source)
    (m : Marker) (crate runtime : NamePath) (stop : Cancellation) (log : Option (List String)) :
    (∃ code, Artifact.render (p.extract m crate.text stop).descriptors runtime.toPath log =
        .ok code) ∧
      (∃ cs : List Candidate, cs.Sublist p.declarations.candidates ∧
        List.Forall₂ (ReadsBack crate) cs (p.extract m crate.text stop).descriptors) ∧
      ∀ (path path' : ModulePath) (item item' : String),
        (∀ n ∈ path.names ++ [item], IsPathName n) → (∀ n ∈ path'.names ++ [item'], IsPathName n) →
        (path, item) ≠ (path', item') →
        path.qualify crate.text item ≠ path'.qualify crate.text item' := by
  have hnames := hasPathNames_of_read hmodules hread
  refine ⟨hnames.exists_render_extract m crate runtime.toPath stop log, ?_, ?_⟩
  · obtain ⟨cs, hcs, hall⟩ := p.exists_sublist_describe m crate.text stop
    exact ⟨cs, hcs.trans p.liveCandidates_sublist,
      hall.imp fun c d h => hnames.readsBack crate h.1 h.2⟩
  · intro path path' item item' hpath hpath' hne hsame
    obtain ⟨rfl, rfl⟩ := ModulePath.eq_of_qualify_eq crate hpath hpath' hsame
    exact hne rfl

theorem module?_of_mem_ofRootText {o : Cfg.Options} {text : String} {u : SourceUnit}
    (hu : u ∈ (ofRootText o text).files) :
    u.module? = some .root ∧ Syntax.SourceFile.parse? text = some u.source := by
  unfold ofRootText addSource? at hu
  cases hparse : Syntax.SourceFile.parse? text with
  | none =>
    rw [hparse] at hu
    cases hu
  | some source =>
    rw [hparse] at hu
    rw [List.mem_singleton.mp hu]
    exact ⟨rfl, rfl⟩

theorem render_extract_readsBack_keywords :
    let p := ofRootText .none "pub mod r#type \x7b #[a::b] pub enum r#fn \x7b C \x7d \x7d"
    let crate : NamePath := ⟨true, .plain "app", [], by decide⟩
    let ds := (p.extract ⟨["a", "b"]⟩ crate.text .never).descriptors
    ds.map (·.qualifiedName) = ["::app::r#type::r#fn"] ∧
      (∃ code, Artifact.render ds Artifact.pgenumPath.toPath none = .ok code) ∧
      (∃ cs : List Candidate, List.Forall₂ (ReadsBack crate) cs ds) ∧
      (ModulePath.mk ["type"]).qualify crate.text "fn" ≠
        ModulePath.root.qualify crate.text "type" := by
  intro p crate ds
  have hmodules : ∀ u ∈ p.files, ∀ m, u.module? = some m → ∀ n ∈ m.names, IsPathName n := by
    intro u hu m hm
    rw [(module?_of_mem_ofRootText hu).1] at hm
    cases hm
    exact fun n hn => absurd hn List.not_mem_nil
  have hread : ∀ u ∈ p.files, ∃ text, Syntax.SourceFile.parse? text = some u.source :=
    fun u hu => ⟨_, (module?_of_mem_ofRootText hu).2⟩
  obtain ⟨hrender, ⟨cs, -, hall⟩, hdistinct⟩ :=
    render_extract_readsBack hmodules hread ⟨["a", "b"]⟩ crate Artifact.pgenumPath .never none
  have hnames : ∀ n ∈ ["type", "fn"], IsPathName n := by
    unfold IsPathName IsIdentName
    decide
  have hname : ∀ n ∈ ["type"], IsPathName n := by
    unfold IsPathName IsIdentName
    decide
  exact ⟨by decide +kernel, hrender, ⟨cs, hall⟩,
    hdistinct ⟨["type"]⟩ .root "fn" "type" hnames hname (by decide)⟩

end Program

end EnumCatalog
