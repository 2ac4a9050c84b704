import EnumCatalog.Proofs.CallText

/-!
# The text of the statements

The two kinds of statements of the artifact, each with the commas that its layout adds. A list is
broken, and gets a comma after its last item, if the line that it would stand on takes more than the
columns of a line: the call from its point on, its values from the bracket in front of them on, and
the database name with what belongs to it.
-/

set_option autoImplicit false

namespace EnumCatalog

open Layout Layout.Doc
open Lexer (Piece textOf lexemesOf flatAll isApart endsWord)
open Syntax (NamePath lastComma)

namespace Artifact

/-! ## 1. Mapping -/

/-- Whether the path of an enum has a line of its own where it is mapped. -/
def mapSpread (p : NamePath) : Bool :=
  decide (margin < 8 + (callLine "map_enum" p "translator").utf8ByteSize)

/-- `mapper.map_enum::<P>(translator);` -/
def mapTokens (touching : Bool) (p : NamePath) : List Token :=
  callTokens touching (.plain "mapper") (.plain "map_enum") p (mapSpread p)
    [.word "translator"] ++ [.punct ';' false]

theorem writes_mapDoc (p : NamePath) (aliasName : Option String) :
    Writes (Doc.render 4 4 (Entry.mapDoc ⟨p.toPath, aliasName⟩)) (mapTokens true p) := by
  have hflat : flatTextAll (.maybe .opening :: items [[.text "translator"]]) = "translator" := rfl
  have hwritten : (flatTextAll (.maybe .opening :: items [[.text "translator"]])).toList =
      textOf [.ident (.plain "translator")] := by
    rw [hflat]
    rfl
  have hshort : 8 + (valuesLine "translator").utf8ByteSize ≤ margin := by decide
  have hrender := toList_render_call (.plain "mapper") (.plain "map_enum") p (by decide) rfl
    (fun _ => hwritten) (fun hlong => by rw [hflat] at hlong; omega)
  refine ⟨_, hrender, ?_⟩
  rw [hflat]
  refine spells_call _ _ (fun rest => rfl) (fun rest hrest hword => ?_)
  exact Bool.and_eq_true_iff.mpr ⟨hword, hrest⟩

/-! ## 2. Database names -/

/-- The database name of an enum as a value: `None` or `Some(L)`. -/
def nameText : Option String → String
  | none => "None"
  | some a => "Some(" ++ Text.quoted a ++ ")"

/-- Whether the database name has a line of its own. -/
def nameSpread (aliasName : Option String) : Bool :=
  decide (margin < 12 + (nameText aliasName ++ ",").utf8ByteSize)

def nameTokens : Option String → List Token
  | none => [.word "None"]
  | some a => [.word "Some", .paren (.literal (Text.quoted a) ::
      lastComma (nameSpread (some a)))]

def namePieces (isSpread : Bool) : Option String → List Piece
  | none => [.ident (.plain "None")]
  | some a => .ident (.plain "Some") :: .opening .paren ::
      (Break.opening.pieces isSpread 16 ++ .literal a ::
        (Break.last.pieces isSpread 12 ++ [.closing .paren]))

theorem lexemesOf_namePieces (aliasName : Option String) (rest : List Piece) :
    lexemesOf (namePieces (nameSpread aliasName) aliasName ++ rest) =
      flatAll (nameTokens aliasName) ++ lexemesOf rest := by
  cases aliasName with
  | none => rfl
  | some a =>
    simp only [namePieces, nameTokens, List.cons_append, List.nil_append, List.append_assoc,
      lexemesOf, Piece.lexemes, Break.lexemesOf_pieces, Token.paren, Token.word, flatAll,
      Lexer.flat]
    cases nameSpread (some a) <;> simp [Break.opening, Break.last, lastComma, flatAll]

theorem isApart_namePieces (isSpread : Bool) (aliasName : Option String) {rest : List Piece}
    (h : isApart rest = true) (hword : endsWord rest = true) :
    isApart (namePieces isSpread aliasName ++ rest) = true := by
  cases aliasName with
  | none => exact Bool.and_eq_true_iff.mpr ⟨hword, h⟩
  | some a =>
    simp [namePieces, isApart, Piece.fits, h]

theorem flatText_aliasDoc (p : NamePath) (aliasName : Option String) :
    flatTextAll (Entry.aliasDoc ⟨p.toPath, aliasName⟩) = nameText aliasName := by
  cases aliasName with
  | none => rfl
  | some a =>
    have hinner : flatTextAll (single [Text.quoted a]) = Text.quoted a := by
      rw [flatTextAll_single]
      simp
    show "Some" ++ ("(" ++ (flatTextAll (single [Text.quoted a]) ++ (")" ++ ""))) =
      "Some(" ++ Text.quoted a ++ ")"
    rw [hinner, ← String.append_assoc, ← String.append_assoc]
    rfl

theorem toList_nameText (aliasName : Option String) :
    (nameText aliasName).toList = textOf (namePieces false aliasName) := by
  cases aliasName with
  | none => rfl
  | some a =>
    simp [nameText, namePieces, Piece.text, Break.pieces, Break.opening, Break.last, Lexer.opener,
      Lexer.closer]

/-- A database name among values that have a line each. -/
theorem put_aliasDoc (p : NamePath) (aliasName : Option String) (ps : List Piece) (rest : List Doc)
    (hrest : lead 2 rest = 1) :
    ∃ used, putAll false 12 2 (Pen.wrote ps 12) (Entry.aliasDoc ⟨p.toPath, aliasName⟩ ++ rest) =
      putAll false 12 2
        (Pen.wrote (ps ++ namePieces (nameSpread aliasName) aliasName) used) rest := by
  cases aliasName with
  | none =>
    show ∃ used, putAll false 12 2 (Pen.wrote ps 12) (.text "None" :: rest) = _
    rw [putAll_piece "None" (.ident (.plain "None")) rfl]
    exact ⟨_, rfl⟩
  | some a =>
    have hquoted : (String.join [Text.quoted a]).toList = textOf [.literal a] := by
      simp [Piece.text]
    -- The columns that decide on a line break, counted as the layout counts them.
    have hspread : nameSpread (some a) = decide (margin < 12 + "Some".utf8ByteSize +
        "(".utf8ByteSize + ((String.join [Text.quoted a]).utf8ByteSize +
          lead 2 (.text ")" :: rest))) := by
      have hlead : lead 2 (.text ")" :: rest) = 2 := by
        show 1 + lead 2 rest = 2
        rw [hrest]
      have hopen : "Some(".utf8ByteSize = 5 := rfl
      have hclose : ")".utf8ByteSize = 1 := rfl
      have hcomma : ",".utf8ByteSize = 1 := rfl
      have hsome : "Some".utf8ByteSize = 4 := rfl
      have hparen : "(".utf8ByteSize = 1 := rfl
      have hjoin : String.join [Text.quoted a] = Text.quoted a := by simp
      rw [hlead, hsome, hparen, hjoin]
      refine decide_eq_decide.mpr ?_
      simp only [nameText, String.utf8ByteSize_append, hopen, hclose, hcomma]
      omega
    show ∃ used, putAll false 12 2 (Pen.wrote ps 12) (.text "Some" :: .text "(" ::
      .group true (single [Text.quoted a]) :: .text ")" :: rest) = _
    rw [putAll_piece "Some" (.ident (.plain "Some")) rfl, putAll_piece "(" (.opening .paren) rfl,
      putAll_single (n := 16) hquoted hspread rfl (by decide),
      putAll_piece ")" (.closing .paren) rfl]
    simp only [namePieces, List.append_assoc, List.cons_append, List.nil_append]
    exact ⟨_, rfl⟩

/-! ## 3. Declaring -/

/-- The values that an enum is declared with. -/
def argumentsText (aliasName : Option String) : String :=
  "schema, " ++ nameText aliasName ++ ", translator"

/-- Whether the path of an enum has a line of its own where it is declared. -/
def declareSpread (p : NamePath) (aliasName : Option String) : Bool :=
  decide (margin < 8 + (callLine "has_postgres_enum" p (argumentsText aliasName)).utf8ByteSize)

/-- Whether the values that an enum is declared with have a line each. -/
def argumentsSpread (aliasName : Option String) : Bool :=
  decide (margin < 8 + (valuesLine (argumentsText aliasName)).utf8ByteSize)

/-- `schema, N, translator` -/
def argumentsTokens (aliasName : Option String) : List Token :=
  .word "schema" :: .punct ',' false :: (nameTokens aliasName ++
    .punct ',' false :: .word "translator" :: lastComma (argumentsSpread aliasName))

/-- `builder.has_postgres_enum::<P>(schema, N, translator);` -/
def declareTokens (touching : Bool) (p : NamePath) (aliasName : Option String) : List Token :=
  callTokens touching (.plain "builder") (.plain "has_postgres_enum") p (declareSpread p aliasName)
    (argumentsTokens aliasName) ++ [.punct ';' false]

def argumentsPieces (aliasName : Option String) : List Piece :=
  Break.opening.pieces (argumentsSpread aliasName) 12 ++ .ident (.plain "schema") :: .punct ',' ::
    (Break.between.pieces (argumentsSpread aliasName) 12 ++
      (namePieces (nameSpread aliasName) aliasName ++ .punct ',' ::
        (Break.between.pieces (argumentsSpread aliasName) 12 ++ .ident (.plain "translator") ::
          Break.last.pieces (argumentsSpread aliasName) 8)))

/-- The values of a declaration, with the breaks between them. -/
def argumentsParts (p : NamePath) (aliasName : Option String) : List Doc :=
  .maybe .opening :: .text "schema" :: .text "," :: .maybe .between ::
    (Entry.aliasDoc ⟨p.toPath, aliasName⟩ ++
      [.text ",", .maybe .between, .text "translator", .maybe .last])

section

variable (p : NamePath) (aliasName : Option String)

theorem argumentsParts_eq : argumentsParts p aliasName = .maybe .opening ::
    items [[.text "schema"], Entry.aliasDoc ⟨p.toPath, aliasName⟩, [.text "translator"]] := by
  simp [argumentsParts, items]

theorem flatText_argumentsParts :
    flatTextAll (argumentsParts p aliasName) = argumentsText aliasName := by
  simp only [argumentsParts, flatTextAll, flatText, flatTextAll_append, flatText_aliasDoc]
  exact String.toList_inj.mp (by simp [argumentsText, Break.opening, Break.between, Break.last])

theorem toList_argumentsText
    (h : 8 + (valuesLine (argumentsText aliasName)).utf8ByteSize ≤ margin) :
    (argumentsText aliasName).toList = textOf (argumentsPieces aliasName) := by
  have hspread : argumentsSpread aliasName = false := decide_eq_false (Nat.not_lt.mpr h)
  have hname : nameSpread aliasName = false := by
    have hopen : "schema, ".utf8ByteSize = 8 := rfl
    have hclose : ", translator".utf8ByteSize = 12 := rfl
    have hcomma : ",".utf8ByteSize = 1 := rfl
    refine decide_eq_false (Nat.not_lt.mpr ?_)
    rw [size_valuesLine, argumentsText] at h
    simp only [String.utf8ByteSize_append, hopen, hclose, hcomma] at h ⊢
    omega
  simp [argumentsText, argumentsPieces, hspread, hname, toList_nameText, Break.pieces,
    Break.opening, Break.between, Break.last, Piece.text]

theorem put_argumentsParts
    (h : margin < 8 + (valuesLine (argumentsText aliasName)).utf8ByteSize) (ps : List Piece) :
    ∃ used, putAll false 12 2 (Pen.wrote ps 10) (argumentsParts p aliasName) =
      Pen.wrote (ps ++ argumentsPieces aliasName) used := by
  have hspread : argumentsSpread aliasName = true := decide_eq_true h
  rw [argumentsParts, putAll_break (n := 12) rfl (by decide),
    putAll_piece "schema" (.ident (.plain "schema")) rfl, putAll_piece "," (.punct ',') rfl,
    putAll_break (n := 12) rfl (by decide)]
  obtain ⟨used, hput⟩ := put_aliasDoc p aliasName
    (ps ++ lineEnd Break.opening.comma 12 ++ [.ident (.plain "schema")] ++ [.punct ','] ++
      lineEnd Break.between.comma 12)
    [.text ",", .maybe .between, .text "translator", .maybe .last] rfl
  rw [hput, putAll_piece "," (.punct ',') rfl, putAll_break (n := 12) rfl (by decide),
    putAll_piece "translator" (.ident (.plain "translator")) rfl,
    putAll_break (n := 8) rfl (by decide), putAll_nil]
  exact ⟨_, congrArg (Pen.wrote · _) (by simp [argumentsPieces, hspread, Break.pieces])⟩

theorem lexemesOf_argumentsPieces (rest : List Piece) :
    lexemesOf (argumentsPieces aliasName ++ rest) =
      flatAll (argumentsTokens aliasName) ++ lexemesOf rest := by
  simp only [argumentsPieces, argumentsTokens, List.cons_append, List.append_assoc, lexemesOf,
    Piece.lexemes, Break.lexemesOf_pieces, Break.touchesPunct_pieces, lexemesOf_namePieces,
    Token.word, flatAll, Lexer.flat, Lexer.flatAll_append, List.nil_append]
  cases argumentsSpread aliasName <;>
    simp [Break.opening, Break.between, Break.last, lastComma, flatAll]

theorem isApart_argumentsPieces {rest : List Piece} (h : isApart rest = true)
    (hword : endsWord rest = true) : isApart (argumentsPieces aliasName ++ rest) = true := by
  have hcomma : Lexer.isPunct ',' = true := by decide
  have hlast : isApart (.punct ',' :: (Break.between.pieces (argumentsSpread aliasName) 12 ++
      .ident (.plain "translator") :: (Break.last.pieces (argumentsSpread aliasName) 8 ++ rest))) =
      true := by
    simp [isApart, Piece.fits, h, hword, hcomma]
  have hname := isApart_namePieces (nameSpread aliasName) aliasName hlast rfl
  simp [argumentsPieces, isApart, Piece.fits, hname, hcomma]

theorem writes_declareDoc :
    Writes (Doc.render 4 4 (Entry.declareDoc ⟨p.toPath, aliasName⟩))
      (declareTokens true p aliasName) := by
  have hflat := flatText_argumentsParts p aliasName
  have hrender := toList_render_call (.plain "builder") (.plain "has_postgres_enum") p (by decide)
    (argumentsParts_eq p aliasName)
    (fun hshort => by
      rw [hflat] at hshort ⊢
      exact toList_argumentsText aliasName hshort)
    (fun hlong => by
      rw [hflat] at hlong
      exact put_argumentsParts p aliasName hlong)
  refine ⟨_, hrender, ?_⟩
  rw [hflat]
  exact spells_call _ _ (lexemesOf_argumentsPieces aliasName)
    fun rest hrest hword => isApart_argumentsPieces aliasName hrest hword

end

end Artifact

end EnumCatalog
