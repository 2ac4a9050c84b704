import EnumCatalog.Proofs.ArtifactReading
import Mathlib.Data.List.Forall2

/-!
# The artifact reads back

The artifact for descriptors whose names are paths is a source file of two functions: one maps every
enum and the other declares it, with the path and the database name of its descriptor, in order.
Whatever an alias holds, the literal that stands for it has the alias as its value.

How the artifact is laid out shows in its tokens in one way alone. A list that is broken over lines
has a comma after its last item: the generic argument of a call, the values of a declaration and the
value of `Some` if the line that they would stand on takes more than the columns of a line
(`mapSpread`, `declareSpread`, `argumentsSpread`, `nameSpread`), and likewise the lists of the heads.
-/

set_option autoImplicit false

namespace EnumCatalog

open Syntax Syntax.Reader Syntax.Grammar Layout

/-! ## 1. Paths -/

namespace Syntax.NamePath

variable (p : NamePath)

/-- The text of a path is read as the path. -/
theorem tokens?_text : Lexer.tokens? p.text = some p.tokens := by
  have hapart : Lexer.isApart (p.pieces ++ []) = true := p.isApart_pieces rfl rfl
  have hlexemes := p.lexemesOf_pieces []
  rw [List.append_nil] at hapart hlexemes
  rw [show Lexer.lexemesOf [] = [] from rfl, List.append_nil] at hlexemes
  rw [← String.ofList_toList (s := p.text), p.toList_text]
  exact Lexer.tokens?_textOf hapart hlexemes

theorem parse?_of_tokens {text : String} (h : Lexer.tokens? text = some p.tokens) :
    Path.parse? text = some p.toPath := by
  have hreads := NamePath.reads_path (ofDepth (enough p.tokens)) false p Ends.nil
  rw [List.append_nil] at hreads
  unfold Path.parse?
  rw [h]
  exact hreads.run?

end Syntax.NamePath

namespace Artifact

/-! ## 2. Items -/

variable (n : Nat) (runtime : NamePath) (rows : List (NamePath × Option String))

theorem reads_mapItem (rest : List Token) :
    ∃ f, f.tokens = mapFunction runtime rows false ∧
      Reads (ofDepth (n + 8)).item (mapFunction runtime rows true ++ rest) rest (.other f) f := by
  obtain ⟨attrs, hattrTokens, hattrs⟩ := readsAttributes_map (n + 5)
  obtain ⟨body, hbodyTokens, hbody⟩ := reads_mapBody (n + 1) rows
  obtain ⟨signature, hsignatureTokens, hsignature⟩ := reads_mapSignature (n + 3) runtime
    (rows.flatMap (fun row => mapTokens true row.1) ++ [.word "mapper"]) rest
  have hsign : atOp "#" (rows.flatMap (fun row => mapTokens true row.1) ++ [.word "mapper"]) =
      false := by
    cases rows <;> rfl
  refine ⟨.concat (attrs.map Attribute.fragment) ++ .plain [.word "pub"] ++
    (signature ++ body.within .brace), ?_, ?_⟩
  · rw [Fragment.tokens_append, Fragment.tokens_append, Fragment.tokens_append, hattrTokens,
      hsignatureTokens, Fragment.within, hbodyTokens, mapFunction, List.append_assoc,
      List.append_assoc]
    rfl
  · rw [mapFunction, List.append_assoc, List.append_assoc, List.cons_append]
    exact reads_anyItem_function (ofDepth (n + 7)) hattrs hsignature hsign hbody

theorem reads_declareItem (rest : List Token) :
    ∃ f, f.tokens = declareFunction runtime rows false ∧
      Reads (ofDepth (n + 8)).item (declareFunction runtime rows true ++ rest) rest (.other f) f := by
  obtain ⟨attrs, hattrTokens, hattrs⟩ := readsAttributes_declare (n + 5)
  obtain ⟨body, hbodyTokens, hbody⟩ := reads_declareBody n rows
  obtain ⟨signature, hsignatureTokens, hsignature⟩ := reads_declareSignature (n + 3) runtime
    (rows.flatMap fun row => declareTokens true row.1 row.2) rest
  have hsign : atOp "#" (rows.flatMap fun row => declareTokens true row.1 row.2) = false := by
    cases rows <;> rfl
  refine ⟨.concat (attrs.map Attribute.fragment) ++ .plain [.word "pub"] ++
    (signature ++ body.within .brace), ?_, ?_⟩
  · rw [Fragment.tokens_append, Fragment.tokens_append, Fragment.tokens_append, hattrTokens,
      hsignatureTokens, Fragment.within, hbodyTokens, declareFunction, List.append_assoc,
      List.append_assoc]
    rfl
  · rw [declareFunction, List.append_assoc, List.append_assoc, List.cons_append]
    exact reads_anyItem_function (ofDepth (n + 7)) hattrs hsignature hsign hbody

/-! ## 3. The file -/

/-- How a source file is read. -/
def fileRule (g : Grammar) : Reader SourceFile := do
  let attrs ← g.innerAttrs
  return ⟨attrs, ← untilEnd g.item⟩

/-- A text that starts with a slash is read as a source file from its first character on. -/
theorem sourceFile_parse? {text s : String} {ts : List Token} (hslash : text = "/" ++ s)
    (h : Lexer.tokens? text = some ts) : SourceFile.parse? text = read? fileRule ts := by
  have hstart : dropShebang (Lexer.dropByteOrderMark text.toList) = text.toList := by
    rw [hslash, String.toList_append]
    rfl
  show (Lexer.tokens? (String.ofList (dropShebang (Lexer.dropByteOrderMark text.toList)))).bind
    (read? fileRule) = _
  rw [hstart, String.ofList_toList, h, Option.bind_some]

/-- The first line of the artifact is a comment. -/
theorem exists_text_eq (a : Artifact) : ∃ rest, a.text = "/" ++ rest := by
  have hline : "// Auto-generated by pgenum-build. Do not edit manually." =
      "/" ++ "/ Auto-generated by pgenum-build. Do not edit manually." := rfl
  unfold text linesText header
  rw [List.map_cons, String.join_cons, hline]
  simp only [String.append_assoc]
  exact ⟨_, rfl⟩

/-- The two functions are all that the file holds. -/
theorem reads_file : ∃ f g, f.tokens = mapFunction runtime rows false ∧
    g.tokens = declareFunction runtime rows false ∧
    Reads (fileRule (ofDepth (n + 8)))
      (mapFunction runtime rows true ++ declareFunction runtime rows true) []
      ⟨[], [.other f, .other g]⟩ (f ++ (g ++ .empty)) := by
  obtain ⟨f, hf, hmap⟩ := reads_mapItem n runtime rows (declareFunction runtime rows true)
  obtain ⟨g, hg, hdeclare⟩ := reads_declareItem n runtime rows []
  rw [List.append_nil] at hdeclare
  have hattrs : Reads (ofDepth (n + 8)).innerAttrs
      (mapFunction runtime rows true ++ declareFunction runtime rows true) _ [] .empty :=
    reads_collect_nil ((reads_ahead _).andThen (reads_pure none _))
  have hdeclareLt : ([] : List Token).length < (declareFunction runtime rows true).length :=
    List.length_pos_iff.mpr (List.cons_ne_nil _ _)
  have hmapLt : (declareFunction runtime rows true).length <
      (mapFunction runtime rows true ++ declareFunction runtime rows true).length := by
    rw [List.length_append]
    exact Nat.lt_add_of_pos_left (List.length_pos_iff.mpr (List.cons_ne_nil _ _))
  have hitems := collects_untilEnd_cons hmapLt hmap
    (collects_untilEnd_cons hdeclareLt hdeclare (collects_untilEnd_nil _))
  exact ⟨f, g, hf, hg, hattrs.andThen (hitems.reads.before (reads_pure _ []))⟩

/-- The artifact is a source file of two functions. -/
theorem parse?_text (log : Option (List String)) :
    ∃ f g, SourceFile.parse? ((ofRows runtime rows).text ++ (log.map diagnosticsText).getD "") =
        some ⟨[], [.other f, .other g]⟩ ∧
      f.tokens = mapFunction runtime rows false ∧ g.tokens = declareFunction runtime rows false := by
  have htokens := (writes_text runtime rows log).tokens?
  obtain ⟨rest, hslash⟩ := exists_text_eq (ofRows runtime rows)
  rw [hslash, String.append_assoc] at htokens ⊢
  rw [sourceFile_parse? rfl htokens]
  obtain ⟨f, g, hf, hg, hfile⟩ := reads_file (8 * Token.sizeAll (mapFunction runtime rows true ++
    declareFunction runtime rows true) + 8) runtime rows
  exact ⟨f, g, hfile.run?, hf, hg⟩

/-! ## 4. Descriptors -/

section

variable {ds : List Descriptor} {paths : List NamePath}

/-- The paths and database names of descriptors. -/
def rowsOf (ds : List Descriptor) (paths : List NamePath) : List (NamePath × Option String) :=
  paths.zip (ds.map (·.aliasName))

variable (hpaths : List.Forall₂ (fun d p => Lexer.tokens? d.qualifiedName = some p.tokens) ds paths)

include hpaths

theorem mapM_entryOf :
    ds.mapM entryOf = .ok ((rowsOf ds paths).map fun row => ⟨row.1.toPath, row.2⟩) := by
  induction hpaths with
  | nil => rfl
  | @cons d p ds paths h hs ih =>
    have hentry : entryOf d = .ok ⟨p.toPath, d.aliasName⟩ := by
      unfold entryOf
      rw [p.parse?_of_tokens h]
    rw [List.mapM_cons, hentry, ih]
    rfl

theorem render_eq (log : Option (List String)) : render ds runtime.toPath log =
    .ok ((ofRows runtime (rowsOf ds paths)).text ++ (log.map diagnosticsText).getD "") := by
  unfold render ofDescriptors
  rw [mapM_entryOf hpaths]
  rfl

/-- What is made from descriptors is read back as two functions, with a statement for each
descriptor in order. The literal in a statement has the database name as its value. -/
theorem render_readsBack (log : Option (List String)) :
    ∃ text f g, render ds runtime.toPath log = .ok text ∧
      Lexer.tokens? text = some (mapFunction runtime (rowsOf ds paths) true ++
        declareFunction runtime (rowsOf ds paths) true) ∧
      SourceFile.parse? text = some ⟨[], [.other f, .other g]⟩ ∧
      f.tokens = mapFunction runtime (rowsOf ds paths) false ∧
      g.tokens = declareFunction runtime (rowsOf ds paths) false ∧
      ∀ d ∈ ds, ∀ a, d.aliasName = some a → ∃ literal,
        nameTokens d.aliasName =
          [.word "Some", .paren (.literal literal :: lastComma (nameSpread d.aliasName))] ∧
        Literal.stringValue? literal = some a := by
  obtain ⟨f, g, hparse, hf, hg⟩ := parse?_text runtime (rowsOf ds paths) log
  refine ⟨_, f, g, render_eq runtime hpaths log,
    (writes_text runtime (rowsOf ds paths) log).tokens?, hparse, hf, hg, fun d _ a ha => ?_⟩
  rw [ha]
  exact ⟨Text.quoted a, rfl, Text.stringValue?_quoted a⟩

end

/-- The path of the runtime crate, if nothing else is asked for. -/
def pgenumPath : NamePath := ⟨true, .plain "pgenum", [], by decide⟩

/-- A path with a raw name in it. -/
def rawPath : NamePath :=
  ⟨false, .plain "crate", [⟨true, "type", by decide, by decide⟩, .plain "Mood"], by decide⟩

/-- A path that has a line of its own where its enum is mapped. -/
def longPath : NamePath :=
  ⟨false, .plain "crate",
    [.plain "billing", .plain "subscription_management", .plain "PaymentCollectionFrequency"],
    by decide⟩

theorem render_readsBack_rawPath :
    List.Forall₂ (fun (d : Descriptor) (p : NamePath) =>
      Lexer.tokens? d.qualifiedName = some p.tokens)
      [⟨"crate::r#type::Mood", some "a\"b\\\n\x001"⟩] [rawPath] ∧
    ∃ text f g, render [⟨"crate::r#type::Mood", some "a\"b\\\n\x001"⟩] pgenumPath.toPath
        (some ["one enum"]) = .ok text ∧
      Lexer.tokens? text = some (mapFunction pgenumPath [(rawPath, some "a\"b\\\n\x001")] true ++
        declareFunction pgenumPath [(rawPath, some "a\"b\\\n\x001")] true) ∧
      SourceFile.parse? text = some ⟨[], [.other f, .other g]⟩ ∧
      f.tokens = mapFunction pgenumPath [(rawPath, some "a\"b\\\n\x001")] false ∧
      g.tokens = declareFunction pgenumPath [(rawPath, some "a\"b\\\n\x001")] false := by
  have hpaths : List.Forall₂ (fun (d : Descriptor) (p : NamePath) =>
      Lexer.tokens? d.qualifiedName = some p.tokens)
      [⟨"crate::r#type::Mood", some "a\"b\\\n\x001"⟩] [rawPath] :=
    .cons rawPath.tokens?_text .nil
  obtain ⟨text, f, g, hrender, htokens, hparse, hf, hg, -⟩ :=
    render_readsBack pgenumPath hpaths (some ["one enum"])
  exact ⟨hpaths, text, f, g, hrender, htokens, hparse, hf, hg⟩

/-- A long path is not all that stands between the angle brackets: a comma follows it. -/
theorem not_readsBack_longPath :
    ¬ ∃ text f g head head',
      render [⟨"crate::billing::subscription_management::PaymentCollectionFrequency", none⟩]
        pgenumPath.toPath none = .ok text ∧
      SourceFile.parse? text = some ⟨[], [.other f, .other g]⟩ ∧
      f.tokens = head ++ [.brace (callTokens false (.plain "mapper") (.plain "map_enum") longPath
        false [.word "translator"] ++ [.punct ';' false, .word "mapper"])] ∧
      g.tokens = head' ++ [.brace (callTokens false (.plain "builder") (.plain "has_postgres_enum")
        longPath false [.word "schema", .punct ',' false, .word "None", .punct ',' false,
          .word "translator"] ++ [.punct ';' false])] := by
  rintro ⟨text, f, g, head, -, hrender, hparse, hf, -⟩
  have hpaths : List.Forall₂ (fun (d : Descriptor) (p : NamePath) =>
      Lexer.tokens? d.qualifiedName = some p.tokens)
      [⟨"crate::billing::subscription_management::PaymentCollectionFrequency", none⟩] [longPath] :=
    .cons longPath.tokens?_text .nil
  obtain ⟨f', g', hparse', hf', -⟩ := parse?_text pgenumPath [(longPath, none)] none
  have htext := Except.ok.inj (hrender.symm.trans (render_eq pgenumPath hpaths none))
  rw [htext] at hparse
  have hitems := (SourceFile.mk.inj (Option.some.inj (hparse.symm.trans hparse'))).2
  obtain rfl : f = f' := Item.other.inj (List.cons.inj hitems).1
  have hspread : mapSpread longPath = true := by decide
  have hlast := (List.append_inj' (hf.symm.trans hf') rfl).2
  simp [mapTokens, callTokens, hspread, lastComma, Token.brace] at hlast

end Artifact

end EnumCatalog
