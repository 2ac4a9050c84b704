import EnumCatalog.Proofs.Escaping
import EnumCatalog.Proofs.HeadText
import EnumCatalog.Proofs.StatementText

/-!
# The text of the artifact

The artifact as the lexer sees it. Of the lines in front of a function the comments are not seen at
all, and neither is the log at the end, whatever its lines quote; a comment that documents something
is an attribute. What is left are the tokens of two functions.
-/

set_option autoImplicit false

namespace EnumCatalog

open Layout Layout.Doc
open Lexer (Piece textOf lexemesOf flatAll isApart endsWord)
open Syntax (NamePath)

namespace Artifact

/-! ## 1. Lines -/

section

variable {line s : String} {ts us : List Token}

theorem writes_lines {lines : List String} (h : Writes (line ++ "\n") ts)
    (hs : Writes (linesText lines) us) : Writes (linesText (line :: lines)) (ts ++ us) := by
  rw [linesText, List.map_cons, String.join_cons]
  exact h.append hs

/-- A line of which nothing is seen. -/
theorem writes_skipped {lines : List String} (h : Writes (line ++ "\n") [])
    (hs : Writes (linesText lines) us) : Writes (linesText (line :: lines)) us := writes_lines h hs

theorem writes_empty : Writes ("" ++ "\n") [] :=
  ⟨[.blank '\n'], rfl, fun _ => rfl, fun _ h => h⟩

/-- A comment is not seen. -/
theorem writes_comment (line : String) (hs : s = "//" ++ line) (hline : '\n' ∉ line.toList)
    (hfirst : line.toList.head?.all (fun c => c != '/' && c != '!') = true) :
    Writes (s ++ "\n") [] := by
  refine ⟨[.comment line, .blank '\n'], ?_, fun _ => rfl, fun rest h => ?_⟩
  · rw [hs, String.toList_append, String.toList_append]
    rfl
  · have hfits : (Piece.comment line).fits (.blank '\n' :: rest) = true := by
      simp [Piece.fits, Lexer.endsLine, hline, hfirst]
    exact Bool.and_eq_true_iff.mpr ⟨hfits, h⟩

/-- The attribute that a documenting line stands for. -/
def docTokens (line : String) : List Token :=
  [.punct '#' false, .bracket [.word "doc", .punct '=' false, .literal (Text.quoted line)]]

theorem writes_doc (hs : s = "///" ++ line)
    (hline : (!line.toList.contains '\n' && !line.toList.contains '\r' &&
      line.toList.head?.all fun c => c != '/') = true) :
    Writes (s ++ "\n") (docTokens line) := by
  refine ⟨[.doc line, .blank '\n'], ?_, fun rest => ?_, fun rest h => ?_⟩
  · rw [hs, String.toList_append, String.toList_append]
    rfl
  · show Lexer.docLexemes line.toList false ++ lexemesOf rest = _
    unfold Lexer.docLexemes
    rw [String.ofList_toList]
    rfl
  · have hfits : (Piece.doc line).fits (.blank '\n' :: rest) = true := by
      rw [Bool.and_assoc] at hline
      simpa [Piece.fits, Lexer.endsLine, and_assoc] using hline
    exact Bool.and_eq_true_iff.mpr ⟨hfits, h⟩

/-- `#[allow(unused_variables)]` -/
def allowTokens : List Token :=
  [.punct '#' false, .bracket [.word "allow", .paren [.word "unused_variables"]]]

theorem writes_allow : Writes ("#[allow(unused_variables)]" ++ "\n") allowTokens := by
  refine ⟨[.punct '#', .opening .bracket, .ident (.plain "allow"), .opening .paren,
    .ident (.plain "unused_variables"), .closing .paren, .closing .bracket, .blank '\n'], ?_,
    fun rest => rfl, fun rest h => ?_⟩
  · rfl
  · exact h

end

/-! ## 2. Comments -/

theorem writes_header : Writes (linesText header) [] := by
  refine writes_skipped (writes_comment
    " Auto-generated by pgenum-build. Do not edit manually." rfl (by decide) rfl) ?_
  refine writes_skipped (writes_comment "" rfl (by decide) rfl) ?_
  refine writes_skipped (writes_comment
    " Regenerated on every build from the #[pg_enum] declarations of this crate." rfl (by decide)
    rfl) ?_
  exact writes_skipped writes_empty .nil

/-- Whatever the lines of the log quote, each of them is a comment. -/
theorem writes_diagnosticsText (lines : List String) : Writes (diagnosticsText lines) [] := by
  have hlog : Writes (linesText (lines.map fun line => "//   " ++ Text.commented line)) [] := by
    induction lines with
    | nil => exact .nil
    | cons line lines ih =>
      have hsplit : "//   " ++ Text.commented line = "//" ++ ("   " ++ Text.commented line) := by
        rw [← String.append_assoc]
        rfl
      have hline : '\n' ∉ ("   " ++ Text.commented line).toList := by
        rw [String.toList_append]
        simp [Text.newline_not_mem_commented]
      refine writes_skipped (writes_comment _ hsplit hline ?_) ih
      rw [String.toList_append]
      rfl
  refine writes_skipped writes_empty (writes_skipped ?_ hlog)
  exact writes_comment " pgenum-build diagnostics:" rfl (by decide) rfl

/-- The attributes of the function that maps. -/
def mapAttributes : List Token :=
  docTokens " Map every `#[pg_enum]` type of this crate with `mapper`." ++ (docTokens "" ++
    (docTokens " Types and labels are named with `translator` (snake_case when `None`)." ++
      (docTokens " Returns `mapper` for chaining." ++ allowTokens)))

/-- The attributes of the function that declares. -/
def declareAttributes : List Token :=
  docTokens " Declare every `#[pg_enum]` type of this crate as a PostgreSQL enum on `builder`." ++
    (docTokens "" ++ (docTokens
      " Enums with an alias are declared under it; the rest are named with `translator`." ++
        allowTokens))

theorem writes_mapComment : Writes (linesText mapComment) mapAttributes := by
  refine writes_lines (writes_doc rfl (by decide)) ?_
  refine writes_lines (writes_doc rfl (by decide)) ?_
  refine writes_lines (writes_doc rfl (by decide)) ?_
  refine writes_lines (writes_doc rfl (by decide)) ?_
  rw [← List.append_nil allowTokens]
  exact writes_lines writes_allow .nil

theorem writes_declareComment : Writes (linesText declareComment) declareAttributes := by
  refine writes_lines (writes_doc rfl (by decide)) ?_
  refine writes_lines (writes_doc rfl (by decide)) ?_
  refine writes_lines (writes_doc rfl (by decide)) ?_
  rw [← List.append_nil allowTokens]
  exact writes_lines writes_allow .nil

/-! ## 3. Functions -/

/-- A function is read as its head and the braces around its statements. -/
theorem writes_functionText {head : List Doc} {hs : List Piece} {hts ts : List Token}
    {statements : List (List Doc)} (hspells : Spells hs hts)
    (hhead : ∀ tail, ∃ used, putAll false 4 0 (Pen.wrote [] 0) (head ++ tail) =
      putAll false 4 0 (Pen.wrote (hs ++ [.opening .brace]) used) tail)
    (hempty : statements = [] → ts = [])
    (hstatements : Writes (String.join (statements.map (Doc.render 4 4))) ts) :
    Writes (functionText head statements) (hts ++ [.brace ts]) := by
  have hnewline : Spells [.blank '\n'] [] := ⟨fun _ => rfl, fun _ h => h⟩
  unfold functionText
  cases statements with
  | nil =>
    obtain ⟨used, hput⟩ := hhead [.text "\x7d"]
    rw [putAll_piece "\x7d" (.closing .brace) rfl, putAll_nil] at hput
    rw [hempty rfl]
    refine ⟨_, toList_render 0 (by decide) hput, ?_⟩
    rw [List.append_assoc, List.append_assoc]
    exact hspells.append (Spells.nil.braces .nil hnewline)
  | cons s statements =>
    obtain ⟨used, hput⟩ := hhead []
    obtain ⟨ps, htext, hps⟩ := hstatements
    rw [List.append_nil, putAll_nil] at hput
    refine ⟨_, ?_, hspells.append (hps.braces hnewline hnewline)⟩
    rw [List.isEmpty_cons, if_neg (by decide), String.toList_append, String.toList_append,
      toList_render 0 (by decide) hput, htext]
    simp [Piece.text, Lexer.closer]

section

variable (runtime : NamePath) (rows : List (NamePath × Option String))

/-- The artifact for paths of names. -/
def ofRows : Artifact := ⟨runtime.toPath, rows.map fun row => ⟨row.1.toPath, row.2⟩⟩

/-- The function that maps: its attributes, its head and a statement for each enum. -/
def mapFunction (touching : Bool) : List Token :=
  mapAttributes ++ .word "pub" :: mapSignature runtime touching ++
    [.brace (rows.flatMap (fun row => mapTokens touching row.1) ++ [.word "mapper"])]

/-- The function that declares. -/
def declareFunction (touching : Bool) : List Token :=
  declareAttributes ++ .word "pub" :: declareSignature runtime touching ++
    [.brace (rows.flatMap fun row => declareTokens touching row.1 row.2)]

theorem spells_mapHead : Spells (headPieces (.plain "map_postgres_enums")
    (mapGenericsPieces runtime (mapGenericsSpread runtime)) (mapParametersPieces runtime)
    resultPieces) (.word "pub" :: mapSignature runtime true) where
  lexemes := by
    refine lexemesOf_headPieces (fun rest => ?_) (lexemesOf_mapGenericsPieces runtime)
      (lexemesOf_mapParametersPieces runtime) fun rest => rfl
    simp [mapGenericsPieces, Break.opening]
  apart rest h := by
    refine isApart_headPieces (fun rest h hword => isApart_mapGenericsPieces runtime h hword _)
      (fun rest h => isApart_mapParametersPieces runtime h) (fun rest h => ?_) h
    simp [resultPieces, isApart, Piece.fits, h, isPunct_heads, isBlank_space]

theorem spells_declareHead : Spells (headPieces (.plain "register_postgres_enums")
    (declareGenericsPieces runtime (declareGenericsSpread runtime))
    (declareParametersPieces runtime) []) (.word "pub" :: declareSignature runtime true) where
  lexemes := by
    refine lexemesOf_headPieces (fun rest => ?_) (lexemesOf_declareGenericsPieces runtime)
      (lexemesOf_declareParametersPieces runtime) fun rest => rfl
    simp [declareGenericsPieces, Break.opening]
  apart rest h := by
    refine isApart_headPieces (fun rest h hword => isApart_declareGenericsPieces runtime h hword _)
      (fun rest h => isApart_declareParametersPieces runtime h) (fun rest h => ?_) h
    exact Bool.and_eq_true_iff.mpr ⟨isBlank_space, h⟩

/-- What the function that maps answers is its last line. -/
theorem writes_mapperDoc : Writes (Doc.render 4 4 [.text "mapper"]) [.word "mapper"] := by
  refine ⟨List.replicate 4 (.blank ' ') ++ [.ident (.plain "mapper"), .blank '\n'], rfl,
    fun _ => rfl, fun rest h => ?_⟩
  rw [List.append_assoc, Break.isApart_spaces]
  exact h

theorem writes_mapStatements :
    Writes (String.join (((ofRows runtime rows).entries.map Entry.mapDoc ++
      [[Doc.text "mapper"]]).map (Doc.render 4 4)))
      (rows.flatMap (fun row => mapTokens true row.1) ++ [.word "mapper"]) := by
  have hrows : Writes (String.join (((ofRows runtime rows).entries.map Entry.mapDoc).map
      (Doc.render 4 4))) (rows.flatMap fun row => mapTokens true row.1) := by
    rw [ofRows, List.map_map, List.map_map]
    exact Writes.join fun row _ => writes_mapDoc row.1 row.2
  rw [List.map_append, String.join_append, List.map_singleton, String.join_cons, String.join_nil,
    String.append_empty]
  exact hrows.append writes_mapperDoc

theorem writes_declareStatements :
    Writes (String.join (((ofRows runtime rows).entries.map Entry.declareDoc).map
      (Doc.render 4 4))) (rows.flatMap fun row => declareTokens true row.1 row.2) := by
  rw [ofRows, List.map_map, List.map_map]
  exact Writes.join fun row _ => writes_declareDoc row.1 row.2

theorem writes_mapFunction :
    Writes (linesText mapComment ++ functionText (ofRows runtime rows).mapHead
      ((ofRows runtime rows).entries.map Entry.mapDoc ++ [[.text "mapper"]]))
      (mapFunction runtime rows true) := by
  rw [mapFunction, List.append_assoc]
  refine writes_mapComment.append ?_
  refine writes_functionText (spells_mapHead runtime) (put_mapHead runtime _) (fun h => ?_)
    (writes_mapStatements runtime rows)
  exact absurd h (List.append_ne_nil_of_right_ne_nil _ (List.cons_ne_nil _ _))

theorem writes_declareFunction :
    Writes (linesText declareComment ++ functionText (ofRows runtime rows).declareHead
      ((ofRows runtime rows).entries.map Entry.declareDoc)) (declareFunction runtime rows true) := by
  rw [declareFunction, List.append_assoc]
  refine writes_declareComment.append ?_
  refine writes_functionText (spells_declareHead runtime) (put_declareHead runtime _)
    (fun h => ?_) (writes_declareStatements runtime rows)
  rw [ofRows, List.map_map, List.map_eq_nil_iff] at h
  rw [h, List.flatMap_nil]

/-- The artifact is read as the tokens of two functions, with the log behind it or without. -/
theorem writes_text (log : Option (List String)) :
    Writes ((ofRows runtime rows).text ++ (log.map diagnosticsText).getD "")
      (mapFunction runtime rows true ++ declareFunction runtime rows true) := by
  have hlog : Writes ((log.map diagnosticsText).getD "") [] := by
    cases log with
    | none => exact .nil
    | some lines => exact writes_diagnosticsText lines
  have htext := writes_header.append
    ((writes_mapFunction runtime rows).append ((writes_declareFunction runtime rows).append hlog))
  rw [List.append_nil] at htext
  unfold Artifact.text
  simpa only [String.append_assoc, List.nil_append] using htext

end

end Artifact

end EnumCatalog
