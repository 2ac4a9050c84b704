import EnumCatalog.Proofs.Enums
import EnumCatalog.Proofs.Equality
import EnumCatalog.Proofs.Extraction
import EnumCatalog.Proofs.NameText
import EnumCatalog.Proofs.PathReading
import EnumCatalog.Proofs.ReadingBack
import EnumCatalog.Proofs.Reference
import EnumCatalog.Proofs.Steps

/-!
# A marker as an attribute

Whether a marker finds the enum that has it for an attribute, as it is written, in a crate of nothing
else. It should, but it does only if the path means the same in both places
(`Marker.descriptors_attributed`). A marker keeps the raw marks of its names, whereas an attribute's
path is resolved to names without marks; and a path that opens with `crate`, `self` or `super` leads
into the crate itself, unless double colons stand in front. Then nothing is found. Nor is it if the
file cannot be read, because the word `try` is no name of an attribute.
-/

set_option autoImplicit false

namespace EnumCatalog

open Syntax Syntax.Reader Syntax.Grammar

/-! ## 1. The file -/

namespace Syntax

/-- The tokens of an enum that has these between the brackets of an attribute. -/
def attributedTokens (ts : List Token) : List Token :=
  [.punct '#' false, .bracket ts, .word "pub", .word "enum", .word "E", .brace [.word "A"]]

/-- An enum with a path for an attribute. -/
def Enum.attributed (p : Path) : Enum :=
  ⟨[⟨false, .path p⟩], .everyone, .plain "E", .empty, .empty, [⟨[], .plain "A", .unit, none⟩], false⟩

variable {ts : List Token} {p : Path} (g : Grammar)

theorem Meta.reads_spelled (expr : Reader Unit) (h : Path.Spelled ts p) (htry : p.hasTry = false) :
    Reads (Meta.read expr) ts [] (.path p) (Meta.fragment (.path p)) := by
  refine Reads.printing (f := p.fragment) ((reads_sees _ ts).andThen ?_)
  rw [h.not_atWord (by decide) (by decide)]
  exact (h.reads_readPlain htry).before (Meta.reads_readAfter_path expr p trivial)

theorem Meta.fails_spelled (expr : Reader Unit) (h : Path.Spelled ts p) (htry : p.hasTry = true) :
    Fails (Meta.read expr) ts := by
  refine Fails.printing ((reads_sees _ ts).fails ?_)
  rw [h.not_atWord (by decide) (by decide)]
  exact (h.fails_readPlain htry).bind _

/-- A variant that is a name alone. -/
theorem Grammar.reads_variant {i : Ident} (hi : i.isName = true) :
    Reads g.variant [.ident i] [] ⟨[], i, .unit, none⟩ (Variant.fragment ⟨[], i, .unit, none⟩) := by
  have hback : Variant.ReadsBack g ⟨[], i, .unit, none⟩ := ⟨List.forall_mem_nil _, nofun⟩
  exact hback.reads ⟨List.forall_mem_nil _, hi⟩ rfl trivial

theorem Grammar.reads_attributed (h : Path.Spelled ts p) (htry : p.hasTry = false) :
    Reads g.anyItem (attributedTokens ts) [] (.enum (.attributed p))
      (Item.fragment (.enum (.attributed p))) := by
  have hattrs : Attribute.Outer g.value [.punct '#' false, .bracket ts] [⟨false, .path p⟩] :=
    .cons false (Meta.reads_spelled g.value h htry) .nil
  have hvariants : CommaList g.variant [.word "A"] [(⟨[], .plain "A", .unit, none⟩, false)] _ :=
    .last (List.cons_ne_nil _ _) (g.reads_variant (by decide))
  obtain ⟨f, henum⟩ : ∃ f, Reads (g.enumAfter [⟨false, .path p⟩] .everyone)
      [.word "enum", .word "E", .brace [.word "A"]] [] (.attributed p) f := by
    refine ⟨.plain [.word "enum"] ++ (.plain [.word "E"] ++
      (Variant.fragment ⟨[], .plain "A", .unit, none⟩).within .brace), ?_⟩
    refine (reads_word rfl _).bind ((reads_name (i := .plain "E") (by decide) _).bind ?_)
    refine (g.reads_generics_none rfl).andThen ((g.reads_whereClause_none rfl).andThen ?_)
    exact (hvariants.reads.inGroup .brace []).before (reads_pure _ [])
  refine Reads.printing (f := f) (reads_get fun _ _ => ?_)
  refine (hattrs.reads rfl).captured.andThen ?_
  refine (reads_everyone (.plain "enum") _).captured.andThen ((reads_ahead _).andThen ?_)
  exact henum.before (reads_pure _ [])

/-- An attribute that cannot be read leaves nothing of the item. -/
theorem Grammar.fails_attributed (h : Fails (Meta.read g.value) ts) :
    Fails g.anyItem (attributedTokens ts) := by
  let rest : List Token := [.word "pub", .word "enum", .word "E", .brace [.word "A"]]
  have hbracket : Fails (Attribute.readBracket g.value false) (.bracket ts :: rest) :=
    (h.inGroup .bracket rest).bind _
  have hround : Fails (Attribute.outerRound g.value) (.punct '#' false :: .bracket ts :: rest) := by
    have hop : Reads (op "#") (.punct '#' false :: .bracket ts :: rest) (.bracket ts :: rest) () _ :=
      reads_op rfl rfl
    refine (reads_sees (atOp "#") _).fails ?_
    show Fails (some <$> Reader.printing Attribute.fragment (do
      op "#"
      Attribute.readBracket g.value false)) _
    exact (Fails.printing (hop.fails hbracket)).map
  exact Fails.printing (fails_get fun _ _ => hround.collect.captured.bind _)

theorem reads_fileRule (h : Path.Spelled ts p) (htry : p.hasTry = false) (n : Nat) :
    ∃ f, Reads (Artifact.fileRule (ofDepth (n + 1))) (attributedTokens ts) []
      ⟨[], [.enum (.attributed p)]⟩ f := by
  have hattrs : Reads (ofDepth (n + 1)).innerAttrs (attributedTokens ts) _ [] .empty :=
    reads_collect_nil ((reads_ahead _).andThen (reads_pure none _))
  have hlt : ([] : List Token).length < (attributedTokens ts).length :=
    List.length_pos_iff.mpr (List.cons_ne_nil _ _)
  have hitems := collects_untilEnd_cons hlt ((ofDepth n).reads_attributed h htry)
    (collects_untilEnd_nil _)
  exact ⟨_, hattrs.andThen (hitems.reads.before (reads_pure _ []))⟩

theorem fails_fileRule (h : Path.Spelled ts p) (htry : p.hasTry = true) (n : Nat) :
    Fails (Artifact.fileRule (ofDepth (n + 1))) (attributedTokens ts) := by
  have hattrs : Reads (ofDepth (n + 1)).innerAttrs (attributedTokens ts) _ [] .empty :=
    reads_collect_nil ((reads_ahead _).andThen (reads_pure none _))
  have hitem : Fails (ofDepth (n + 1)).item (attributedTokens ts) :=
    (ofDepth n).fails_attributed (Meta.fails_spelled _ h htry)
  have hround : Fails (do
      if ← atEnd then return none
      else return some (← (ofDepth (n + 1)).item)) (attributedTokens ts) :=
    (reads_atEnd_of_ne_nil (List.cons_ne_nil _ _)).fails (hitem.bind _)
  exact hattrs.fails (hround.collect.bind _)

/-- A file of one enum under an attribute is read, unless `try` is a name of the attribute's path.
-/
theorem SourceFile.parse?_attributed {text inner : String} (hopens : text = "#[" ++ inner)
    (htokens : Lexer.tokens? text = some (attributedTokens ts)) (h : Path.Spelled ts p) :
    SourceFile.parse? text = if p.hasTry then none else some ⟨[], [.enum (.attributed p)]⟩ := by
  have hstart : dropShebang (Lexer.dropByteOrderMark text.toList) = text.toList := by
    rw [hopens, String.toList_append]
    rfl
  have hread : SourceFile.parse? text = read? Artifact.fileRule (attributedTokens ts) := by
    show (Lexer.tokens? (String.ofList (dropShebang (Lexer.dropByteOrderMark text.toList)))).bind
      (read? Artifact.fileRule) = _
    rw [hstart, String.ofList_toList, htokens, Option.bind_some]
  have hdepth :
      enough (attributedTokens ts) = 8 * Token.sizeAll (attributedTokens ts) + 15 + 1 := rfl
  rw [hread, read?, hdepth]
  split
  case isTrue htry => exact (fails_fileRule h htry _).run?
  case isFalse htry =>
    obtain ⟨f, hfile⟩ := reads_fileRule h (Bool.eq_false_iff.mpr htry) _
    exact hfile.run?

end Syntax

/-! ## 2. What a path means in a crate of nothing else -/

theorem Ident.text_eq_name_iff {i : Ident} : i.text = i.name ↔ i.raw = false := by
  unfold text
  cases i.raw with
  | false => exact ⟨fun _ => rfl, fun _ => rfl⟩
  | true =>
    refine ⟨fun h => ?_, fun h => by cases h⟩
    have hlength := congrArg (·.toList.length) h
    simp at hlength
    omega

namespace Scopes

/-- The scope of a crate of one list of items that imports nothing. -/
def alone : Scopes := ⟨[⟨some .root, []⟩]⟩

theorem childOf?_alone (name : String) : alone.childOf? 0 name = none := by
  show List.findIdx? (fun s : Scope => s.module? == some (ModulePath.root.child name))
    [⟨some .root, []⟩] = none
  rw [List.findIdx?_eq_none_iff]
  intro s hs
  rw [List.mem_singleton.mp hs]
  simp [ModulePath.root, ModulePath.child]

/-- A path is followed for as long as it opens with a word that leads to a module. -/
theorem resolveWithin_alone (n : Nat) (first : String) (rest : List String) :
    alone.resolveWithin (n + 1) 0 (first :: rest) =
      if first == "crate" then alone.resolveWithin n 0 rest
      else if first == "self" then alone.resolveWithin n 0 rest
      else if first == "super" then []
      else [first :: rest] := by
  have htarget : alone.targetOf? 0 first = none := rfl
  have hglobs : alone.globsOf 0 = [] := rfl
  rw [resolveWithin]
  simp only [htarget, hglobs, childOf?_alone, List.flatMap_nil, List.nil_append]
  rfl

theorem length_le_of_mem_alone {n : Nat} {names ws : List String}
    (h : ws ∈ alone.resolveWithin n 0 names) : ws.length ≤ names.length := by
  induction n generalizing names with
  | zero => cases h
  | succ n ih =>
    cases names with
    | nil => cases h
    | cons first rest =>
      have hle : rest.length ≤ (first :: rest).length := Nat.le_succ _
      rw [resolveWithin_alone] at h
      split at h
      · exact Nat.le_trans (ih h) hle
      · split at h
        · exact Nat.le_trans (ih h) hle
        · split at h
          · cases h
          · exact (List.mem_singleton.mp h) ▸ Nat.le_refl _

/-- What such a word leads to is shorter than the path; any other path stands for itself. -/
theorem mem_alone_iff {n : Nat} {names ws : List String} (hne : names ≠ [])
    (hlength : ws.length = names.length) :
    ws ∈ alone.resolveWithin (n + 1) 0 names ↔ isRelative names = false ∧ ws = names := by
  obtain ⟨first, rest, rfl⟩ := List.exists_cons_of_ne_nil hne
  have hshorter : ws ∉ alone.resolveWithin n 0 rest := fun h => by
    have hle := length_le_of_mem_alone h
    rw [hlength, List.length_cons] at hle
    omega
  rw [resolveWithin_alone, isRelative_cons, isRelative_singleton_eq_false]
  by_cases hcrate : first = "crate"
  · simp [hcrate, hshorter]
  · by_cases hself : first = "self"
    · simp [hself, hshorter]
    · by_cases hsuper : first = "super"
      · simp [hsuper]
      · simp [hcrate, hself, hsuper]

theorem mem_resolve_alone_iff {p : Path} {ws : List String} (hne : p.segments ≠ [])
    (hlength : ws.length = p.segments.length) :
    ws ∈ alone.resolve 0 p ↔ (p.leading = true ∨ isRelative p.names = false) ∧ ws = p.names := by
  have hnames : p.names.length = p.segments.length := List.length_map _
  unfold resolve
  split
  case isTrue hleading => simp [hleading]
  case isFalse hleading =>
    have hne : p.names ≠ [] := by
      rw [← List.length_pos_iff, hnames]
      exact List.length_pos_iff.mpr hne
    rw [maxSteps, mem_alone_iff hne (hlength.trans hnames.symm)]
    simp [hleading]

end Scopes

/-! ## 3. What is found -/

namespace Syntax.Path

/-- A path of several names is no single word. -/
theorem isWord_eq_false {p : Path} (h : 2 ≤ p.segments.length) (w : String) :
    p.isWord w = false := by
  obtain ⟨leading, segments⟩ := p
  have hident : ident? ⟨leading, segments⟩ = none := by
    match leading, segments, h with
    | true, _, _ => rfl
    | false, ⟨_, none⟩ :: _ :: _, _ => rfl
    | false, ⟨_, some _⟩ :: _ :: _, _ => rfl
  rw [isWord, hident]
  rfl

/-- Whether the names, as they are written in an attribute, are also what the path means in a crate
of nothing else. -/
def isLiteral (p : Path) : Bool :=
  p.segments.all (!·.ident.raw) && (p.leading || !Scopes.isRelative p.names)

theorem names_eq_iff {p : Path} :
    p.segments.map (·.ident.text) = p.names ↔ p.segments.all (!·.ident.raw) = true := by
  rw [names, List.map_inj_left, List.all_eq_true]
  simp [Ident.text_eq_name_iff]

end Syntax.Path

namespace Program

/-- The crate of an enum with a path for an attribute, and nothing else. -/
def attributed (o : Cfg.Options) (p : Path) : Program :=
  ⟨[⟨⟨"src/lib.rs"⟩, some .root, true, ⟨[], [.enum (.attributed p)]⟩⟩], o⟩

variable {o : Cfg.Options} {p : Path} {m : Marker}

theorem candidates_attributed (hlength : 2 ≤ p.segments.length) :
    (attributed o p).declarations.candidates =
      [⟨⟨"src/lib.rs"⟩, some .root, 0, .attributed p, true, some true⟩] := by
  have henabled : o.enabled (Enum.attributed p).attrs = some true := by
    have hnot : (Enum.attributed p).attrs.filter (·.name.isWord "cfg") = [] := by
      rw [List.filter_eq_nil_iff]
      intro a ha
      rw [List.mem_singleton.mp ha]
      exact ne_true_of_eq_false (Path.isWord_eq_false hlength "cfg")
    rw [Cfg.Options.enabled, hnot]
    rfl
  have hcandidates : (attributed o p).declarations.candidates =
      [⟨⟨"src/lib.rs"⟩, some .root, 0, .attributed p, true,
        Cfg.Verdict.and (some true) (o.enabled (Enum.attributed p).attrs)⟩] := rfl
  rw [hcandidates, henabled]
  rfl

theorem mentions_attributed (hlength : 2 ≤ p.segments.length)
    (hm : m.segments = p.segments.map (·.ident.text)) :
    (attributed o p).mentions m.crateName = true := by
  obtain ⟨first, rest, hsegments⟩ :=
    List.exists_cons_of_length_pos (Nat.lt_of_lt_of_le Nat.zero_lt_two hlength)
  have hpath : p.idents ∈ (attributed o p).paths := by
    have hmem := candidates_attributed (o := o) hlength ▸ List.mem_singleton_self _
    exact idents_mem_paths (a := ⟨false, .path p⟩) hmem (List.mem_singleton_self _)
  have hcrate : m.crateName = first.ident.text := by
    rw [Marker.crateName, hm, hsegments]
    rfl
  rw [hcrate]
  exact mentions_of_mem_paths hpath (by rw [Path.idents, hsegments]; rfl)

/-- A marker finds the enum that has it for an attribute if the names mean what they say. -/
theorem descriptors_attributed (hlength : 2 ≤ p.segments.length)
    (hm : m.segments = p.segments.map (·.ident.text)) (crateName : String) :
    ((attributed o p).extract m crateName .never).descriptors =
      if p.isLiteral then [⟨ModulePath.root.qualify crateName "E", none⟩] else [] := by
  let c : Candidate := ⟨⟨"src/lib.rs"⟩, some .root, 0, .attributed p, true, some true⟩
  have hlive : (attributed o p).liveCandidates = [c] := by
    rw [liveCandidates, candidates_attributed hlength]
    rfl
  have hmarker : c.isMarker (attributed o p).scopes m ⟨false, .path p⟩ = p.isLiteral := by
    have hne : p.segments ≠ [] :=
      List.ne_nil_of_length_pos (Nat.lt_of_lt_of_le Nat.zero_lt_two hlength)
    have hsegments : m.segments.length = p.segments.length := by rw [hm, List.length_map]
    rw [Bool.eq_iff_iff, Candidate.isMarker_iff]
    refine (Scopes.mem_resolve_alone_iff hne hsegments).trans ?_
    rw [hm, Path.names_eq_iff, Path.isLiteral, Bool.and_eq_true, Bool.or_eq_true, Bool.not_eq_true']
    exact and_comm
  have hmarkers : c.markers (attributed o p).scopes m =
      if p.isLiteral then [⟨false, .path p⟩] else [] := by
    show List.filter _ [_] = _
    rw [List.filter_singleton, hmarker, Bool.cond_eq_ite]
  have hname : c.qualifiedName crateName = .ok (ModulePath.root.qualify crateName "E") := rfl
  rw [descriptors_extract (mentions_attributed hlength hm), hlive, List.filterMap_cons,
    List.filterMap_nil, Candidate.describe, Extraction.examine, hname]
  simp only [hmarkers]
  cases p.isLiteral with
  | true => rfl
  | false => rfl

end Program

/-! ## 4. The text of a marker -/

/-- A file of one enum, with a text between the brackets of its attribute. -/
def attributedText (text : String) : String := "#[" ++ text ++ "] pub enum E { A }"

/-- A text of names without comments is read between the brackets as it is read alone. -/
theorem tokens?_attributedText {text : String} {ts : List Token}
    (h : Lexer.tokens? text = some ts) (hts : ∀ t ∈ ts, Lexer.isOfNames t = true)
    (hslash : '/' ∉ text.toList) (hmark : ∀ c ∈ text.toList.head?, c ≠ '\ufeff') :
    Lexer.tokens? (attributedText text) = some (attributedTokens ts) := by
  obtain ⟨ps, htext, hapart, hlexemes⟩ := Lexer.exists_pieces h hts hslash hmark
  let after : List Lexer.Piece := [.blank ' ', .ident (.plain "pub"), .blank ' ',
    .ident (.plain "enum"), .blank ' ', .ident (.plain "E"), .blank ' ', .opening .brace, .blank ' ',
    .ident (.plain "A"), .blank ' ', .closing .brace]
  -- The text is put together from the pieces of the marker and those of the enum around them.
  have hpieces : attributedText text =
      String.ofList (Lexer.textOf (.punct '#' :: .opening .bracket ::
        (ps ++ .closing .bracket :: after))) := by
    rw [Lexer.textOf_cons, Lexer.textOf_cons, Lexer.textOf_append, htext, ← String.toList_inj,
      String.toList_ofList, attributedText, String.toList_append, String.toList_append,
      List.append_assoc]
    rfl
  rw [hpieces]
  refine Lexer.tokens?_textOf ?_ ?_
  · rw [Lexer.isApart, Lexer.isApart, Lexer.isApart_append_closing, hapart]
    rfl
  · rw [Lexer.lexemesOf, Lexer.lexemesOf, Lexer.lexemesOf_append_closing, hlexemes,
      ← Lexer.flatAll_of_isOfNames hts]
    rw [attributedTokens]
    simp [Lexer.flatAll, Lexer.flat, Lexer.lexemesOf, Lexer.Piece.lexemes, after, Token.bracket,
      Token.brace, Token.word]

namespace Marker

/-- What is accepted as a marker. -/
theorem parse_eq_ok {text : String} {m : Marker} (h : parse text = .ok m) :
    ∃ p, Path.parse? text = some p ∧ 2 ≤ p.segments.length ∧ p.isPlain = true ∧
      m.segments = p.segments.map (·.ident.text) := by
  unfold parse at h
  split at h
  · cases h
  · next p hp =>
    split at h
    · cases h
    · next hlength =>
      split at h
      · cases h
      · next hplain =>
        cases h
        exact ⟨p, hp, Nat.le_of_not_lt hlength, by simpa using hplain, rfl⟩

/-- A path of at least two names is accepted. -/
theorem parse_of_path {text : String} {p : Path} (hp : Path.parse? text = some p)
    (hlength : 2 ≤ p.segments.length) (hplain : p.isPlain = true) :
    parse text = .ok ⟨p.segments.map (·.ident.text)⟩ := by
  unfold parse
  rw [hp]
  show (if _ then _ else if _ then _ else _) = _
  rw [if_neg (Nat.not_lt_of_le hlength), if_neg (by rw [hplain]; decide)]

/-- The tokens of a path without arguments are names and colons. -/
theorem exists_tokens_of_path {text : String} {p : Path} (hp : Path.parse? text = some p)
    (hplain : p.isPlain = true) : ∃ ts, Lexer.tokens? text = some ts ∧ Path.Spelled ts p ∧
      ∀ t ∈ ts, Lexer.isOfNames t = true := by
  obtain ⟨ts, htokens, hread⟩ := Option.bind_eq_some_iff.mp hp
  have hspelled : Path.Spelled ts p := Path.spelled_of_run? hread hplain
  refine ⟨ts, htokens, hspelled, fun t ht => ?_⟩
  rcases hspelled.mem ht with ⟨i, rfl⟩ | ⟨j, rfl⟩
  · rfl
  · rfl

/-- What a marker finds in a file whose tokens are those of an enum with the path for an
attribute. -/
theorem descriptors_ofSpelled {inner : String} {ts : List Token} {p : Path} {m : Marker}
    (hinner : Lexer.tokens? (attributedText inner) = some (attributedTokens ts))
    (hspelled : Path.Spelled ts p) (hlength : 2 ≤ p.segments.length)
    (hm : m.segments = p.segments.map (·.ident.text)) (o : Cfg.Options) (crateName : String) :
    ((Program.ofRootText o (attributedText inner)).extract m crateName .never).descriptors =
      if p.isLiteral && !p.hasTry then [⟨ModulePath.root.qualify crateName "E", none⟩] else [] := by
  have hopens : attributedText inner = "#[" ++ (inner ++ "] pub enum E { A }") :=
    String.append_assoc
  have hparse := SourceFile.parse?_attributed hopens hinner hspelled
  have hprogram : Program.ofRootText o (attributedText inner) =
      if p.hasTry then .empty o else .attributed o p := by
    rw [Program.ofRootText, Program.addSource?, hparse]
    cases p.hasTry with
    | true => rfl
    | false => rfl
  rw [hprogram]
  cases p.hasTry with
  | true =>
    rw [Bool.not_true, Bool.and_false, if_pos rfl, Program.descriptors_extract_of_not_mentions rfl]
    rfl
  | false =>
    rw [Bool.not_false, Bool.and_true]
    exact Program.descriptors_attributed hlength hm crateName

/-- Which markers find the enum that has them for an attribute, in a file that is read as just that.
A text without comments makes such a file as it stands. -/
theorem descriptors_ofRootText {text : String} {m : Marker} (h : parse text = .ok m) :
    ∃ p, Path.parse? text = some p ∧
      (∀ inner, Lexer.tokens? (attributedText inner) =
          (Lexer.tokens? text).map attributedTokens → ∀ o crateName,
        ((Program.ofRootText o (attributedText inner)).extract m crateName .never).descriptors =
          if p.isLiteral && !p.hasTry then [⟨ModulePath.root.qualify crateName "E", none⟩]
          else []) ∧
      ('/' ∉ text.toList → (∀ c ∈ text.toList.head?, c ≠ '\ufeff') →
        Lexer.tokens? (attributedText text) = (Lexer.tokens? text).map attributedTokens) := by
  obtain ⟨p, hp, hlength, hplain, hm⟩ := parse_eq_ok h
  obtain ⟨ts, htokens, hspelled, hnames⟩ := exists_tokens_of_path hp hplain
  refine ⟨p, hp, fun inner hinner o crateName => ?_, fun hslash hmark => ?_⟩
  · rw [htokens, Option.map_some] at hinner
    exact descriptors_ofSpelled hinner hspelled hlength hm o crateName
  · rw [htokens, Option.map_some]
    exact tokens?_attributedText htokens hnames hslash hmark

/-- A text with the path that it is read as. -/
structure PathText where
  text : String
  path : Path
  parse?_text : Path.parse? text = some path

/-- A path from the root of all crates, with blanks in it. -/
def leading : PathText where
  text := "::a :: b"
  path := ⟨true, [⟨.plain "a", none⟩, ⟨.plain "b", none⟩]⟩
  parse?_text := by decide +kernel

theorem descriptors_ofRootText_leading :
    ∃ p, Path.parse? "::a :: b" = some p ∧ p.isLiteral = true ∧ p.hasTry = false ∧
      parse "::a :: b" = .ok ⟨["a", "b"]⟩ ∧
      ((Program.ofRootText .none (attributedText "::a :: b")).extract ⟨["a", "b"]⟩ "crate"
        .never).descriptors = [⟨"crate::E", none⟩] := by
  have hparse : parse "::a :: b" = .ok ⟨["a", "b"]⟩ :=
    parse_of_path leading.parse?_text (Nat.le_refl 2) rfl
  have hmark : ∀ c ∈ "::a :: b".toList.head?, c ≠ '\ufeff' := by
    rintro _ ⟨⟩
    decide
  obtain ⟨p, hp, hfound, htokens⟩ := descriptors_ofRootText hparse
  obtain rfl : leading.path = p := Option.some.inj (leading.parse?_text.symm.trans hp)
  refine ⟨leading.path, hp, rfl, rfl, hparse, ?_⟩
  rw [hfound "::a :: b" (htokens (by decide) hmark)]
  rfl

/-- A path with a raw name. -/
def rawName : PathText where
  text := "a::r#enum"
  path := ⟨false, [⟨.plain "a", none⟩, ⟨⟨true, "enum", by decide, by decide⟩, none⟩]⟩
  parse?_text := by decide +kernel

/-- A path that leads into the crate. -/
def inCrate : PathText where
  text := "crate::b"
  path := ⟨false, [⟨.plain "crate", none⟩, ⟨.plain "b", none⟩]⟩
  parse?_text := by decide +kernel

/-- A marker with a raw name and one that leads into the crate find nothing. -/
theorem not_descriptors_ofRootText :
    parse "a::r#enum" = .ok ⟨["a", "r#enum"]⟩ ∧
      ((Program.ofRootText .none (attributedText "a::r#enum")).extract ⟨["a", "r#enum"]⟩ "crate"
        .never).descriptors = [] ∧
      parse "crate::b" = .ok ⟨["crate", "b"]⟩ ∧
      ((Program.ofRootText .none (attributedText "crate::b")).extract ⟨["crate", "b"]⟩ "crate"
        .never).descriptors = [] := by
  have finds (t : PathText) (hlength : 2 ≤ t.path.segments.length) (hplain : t.path.isPlain = true)
      (hslash : '/' ∉ t.text.toList) (hmark : ∀ c ∈ t.text.toList.head?, c ≠ '\ufeff')
      (hliteral : t.path.isLiteral = false) :
      ((Program.ofRootText .none (attributedText t.text)).extract
        ⟨t.path.segments.map (·.ident.text)⟩ "crate" .never).descriptors = [] := by
    obtain ⟨ts, htokens, hspelled, hnames⟩ := exists_tokens_of_path t.parse?_text hplain
    rw [descriptors_ofSpelled (tokens?_attributedText htokens hnames hslash hmark) hspelled hlength
      rfl, hliteral]
    rfl
  exact ⟨parse_of_path rawName.parse?_text (Nat.le_refl 2) rfl,
    finds rawName (Nat.le_refl 2) rfl (by decide) (by rintro _ ⟨⟩; decide) rfl,
    parse_of_path inCrate.parse?_text (Nat.le_refl 2) rfl,
    finds inCrate (Nat.le_refl 2) rfl (by decide) (by rintro _ ⟨⟩; decide) rfl⟩

end Marker

end EnumCatalog
