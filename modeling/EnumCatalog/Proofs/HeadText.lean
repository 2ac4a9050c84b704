import EnumCatalog.Proofs.CallText

/-!
# The text of the heads

The heads of the two functions of the artifact. Their parameters never fit on a line; whether their
generic parameters do, and the type of the translator, depends on the path of the runtime crate.
-/

set_option autoImplicit false

namespace EnumCatalog

open Layout Layout.Doc
open Lexer (Piece textOf lexemesOf flatAll isApart endsWord)
open Syntax (NamePath lastComma)

/-! ## 1. Paths into the runtime crate -/

namespace Syntax.NamePath

variable (p : NamePath) {i : Ident} (hi : i.isSegment = true)

/-- The path of something in what the path leads to. -/
def child : NamePath where
  leading := p.leading
  first := p.first
  others := p.others ++ [i]
  isSegment := by
    intro j hj
    rcases List.mem_append.mp (List.cons_append ▸ hj) with h | h
    · exact p.isSegment j h
    · exact List.mem_singleton.mp h ▸ hi

theorem rootedPieces_append (is js : List Ident) :
    rootedPieces (is ++ js) = rootedPieces is ++ rootedPieces js := by
  induction is with
  | nil => rfl
  | cons i is ih => rw [List.cons_append, rootedPieces, rootedPieces, ih]; rfl

theorem toList_child :
    (String.join (p.words ++ ["::" ++ i.text])).toList = textOf (p.child hi).pieces := by
  have hpieces : (p.child hi).pieces = p.pieces ++ [.punct ':', .punct ':', .ident i] := by
    show (if p.leading then _ else []) ++ .ident p.first :: rootedPieces (p.others ++ [i]) = _
    rw [rootedPieces_append]
    simp [pieces, rootedPieces]
  rw [hpieces, String.join_append, String.toList_append, Lexer.textOf_append]
  show p.text.toList ++ _ = _
  rw [toList_text]
  simp [Piece.text]

theorem runtimeDoc_toPath (item : String) :
    runtimeDoc p.toPath item = (p.words ++ ["::" ++ item]).map .text := by
  rw [runtimeDoc, doc_toPath, List.map_append]
  rfl

/-- Some words and the path of something in what the path leads to. -/
def labelled (label item : String) : List String := label :: (p.words ++ ["::" ++ item])

theorem toList_labelled {label : String} {ls : List Piece} (hlabel : label.toList = textOf ls) :
    (String.join (p.labelled label i.text)).toList = textOf (ls ++ (p.child hi).pieces) := by
  rw [labelled, String.join_cons, String.toList_append, p.toList_child hi, hlabel,
    Lexer.textOf_append]

theorem join_labelled (label item : String) :
    String.join (p.labelled label item) = label ++ (p.text ++ ("::" ++ item)) := by
  rw [labelled, String.join_cons, String.join_append, text]
  simp

theorem size_labelled (label item : String) : (String.join (p.labelled label item)).utf8ByteSize =
    label.utf8ByteSize + p.text.utf8ByteSize + item.utf8ByteSize + 2 := by
  rw [join_labelled, String.utf8ByteSize_append, String.utf8ByteSize_append,
    String.utf8ByteSize_append, show "::".utf8ByteSize = 2 from rfl]
  omega

end Syntax.NamePath

/-! ## 2. Heads -/

/-- The head of a function as it is written, from its name to the brace that opens its body. -/
def headPieces (name : Ident) (generics parameters result : List Piece) : List Piece :=
  .ident (.plain "pub") :: .blank ' ' :: .ident (.plain "fn") :: .blank ' ' :: .ident name ::
    .punct '<' :: (generics ++ .punct '>' :: .opening .paren :: (parameters ++
      .closing .paren :: (result ++ [.blank ' '])))

section

variable (name : Ident) {generics parameters : List (List Doc)} {result : String}
  {isSpread : Bool} {gs ps qs rs : List Piece} {inner rest : List Doc} {used : Nat}

/-- The generic parameters of a head, on the line or on lines of their own. -/
theorem put_generics {columns : Nat} (hlead : lead 0 rest = 2)
    (hspread : isSpread = decide (margin < used + ((flatTextAll inner).utf8ByteSize + 2)))
    (hflat : isSpread = false → (flatTextAll inner).toList = textOf gs)
    (hbroken : isSpread = true → ∀ qs used, putAll false 4 2 (Pen.wrote qs used) inner =
      Pen.wrote (qs ++ gs) 0)
    (hcolumns : columns = if isSpread then 0 else used + (flatTextAll inner).utf8ByteSize) :
    putAll false 4 0 (Pen.wrote qs used) (.group false inner :: rest) =
      putAll false 4 0 (Pen.wrote (qs ++ gs) columns) rest := by
  cases isSpread with
  | true =>
    have hbreaks := of_decide_eq_true hspread.symm
    rw [putAll_group_of_not (n := 4) rfl (by rw [hlead]; exact hbreaks), hlead, hbroken rfl,
      hcolumns, if_pos rfl]
  | false =>
    have hfits := Nat.not_lt.mp (of_decide_eq_false hspread.symm)
    rw [putAll_group_of_fits (hflat rfl) (by rw [hlead]; exact hfits), hcolumns,
      if_neg (by decide)]

/-- The columns that a head has taken before its parameters. -/
def headColumns (isSpread : Bool) (name generics : String) : Nat :=
  if isSpread then 2 else ("pub fn " ++ name).utf8ByteSize + generics.utf8ByteSize + 3

/-- There is no room left for so many columns if there is none on either of the two lines. -/
theorem lt_headColumns {generics : String} {columns : Nat}
    (hspread : isSpread = decide (margin < headColumns false name.text generics))
    (hbroken : margin < headColumns false name.text generics → margin < 2 + columns)
    (hflat : margin < headColumns false name.text generics + columns) :
    margin < headColumns isSpread name.text generics + columns := by
  cases isSpread with
  | true => exact hbroken (of_decide_eq_true hspread.symm)
  | false => exact hflat

theorem put_headDoc (tail : List Doc)
    (hspread : isSpread = decide (margin < headColumns false name.text
      (flatTextAll (.maybe .opening :: items generics))))
    (hflat : isSpread = false →
      (flatTextAll (.maybe .opening :: items generics)).toList = textOf gs)
    (hbroken : isSpread = true → ∀ qs used, putAll false 4 2 (Pen.wrote qs used)
      (.maybe .opening :: items generics) = Pen.wrote (qs ++ gs) 0)
    (hwide : margin < headColumns isSpread name.text
        (flatTextAll (.maybe .opening :: items generics)) +
      ((flatTextAll (.maybe .opening :: items parameters)).utf8ByteSize + result.utf8ByteSize + 3))
    (hparameters : ∀ qs used after, putAll false 4 after (Pen.wrote qs used)
      (.maybe .opening :: items parameters) = Pen.wrote (qs ++ ps) 0)
    (hresult : result.toList = textOf rs) :
    ∃ used, putAll false 4 0 (Pen.wrote [] 0) (headDoc name.text generics parameters result ++ tail) =
      putAll false 4 0
        (Pen.wrote (headPieces name gs ps rs ++ [.opening .brace]) used) tail := by
  have hname : ("pub fn " ++ name.text).toList = textOf
      [.ident (.plain "pub"), .blank ' ', .ident (.plain "fn"), .blank ' ', .ident name] := by
    simp [Piece.text]
  have hbrace : (result ++ " \x7b").toList = textOf (rs ++ [.blank ' ', .opening .brace]) := by
    rw [String.toList_append, hresult, Lexer.textOf_append]
    rfl
  have hbraceSize : (result ++ " \x7b").utf8ByteSize = result.utf8ByteSize + 2 := by
    rw [String.utf8ByteSize_append]
    rfl
  have hangle : "<".utf8ByteSize = 1 := rfl
  have hdoc : headDoc name.text generics parameters result ++ tail =
      .text ("pub fn " ++ name.text) :: .text "<" ::
        .group false (.maybe .opening :: items generics) :: .text ">" :: .text "(" :: .seam ::
        .text "" :: .group false (.maybe .opening :: items parameters) :: .text ")" ::
        .text (result ++ " \x7b") :: tail := by
    simp [headDoc, Doc.list]
  have hgenerics : isSpread = decide (margin < 0 + ("pub fn " ++ name.text).utf8ByteSize +
      "<".utf8ByteSize + ((flatTextAll (.maybe .opening :: items generics)).utf8ByteSize + 2)) := by
    rw [hspread, hangle]
    refine decide_eq_decide.mpr ?_
    simp only [headColumns, Bool.false_eq_true, if_false]
    omega
  -- The pen goes over the parts of the head one after the other. What is left to show is that the
  -- parameters take a line each.
  rw [hdoc, putAll_text hname, putAll_piece "<" (.punct '<') rfl,
    put_generics rfl hgenerics hflat hbroken rfl, putAll_piece ">" (.punct '>') rfl,
    putAll_piece "(" (.opening .paren) rfl, putAll_seam, putAll_text (show "".toList = textOf [] from rfl),
    putAll_group_of_not (n := 4) rfl, hparameters, putAll_piece ")" (.closing .paren) rfl,
    putAll_text hbrace]
  · exact ⟨_, congrArg (fun qs => putAll false 4 0 (Pen.wrote qs _) tail) (by simp [headPieces])⟩
  · have hlead : result.utf8ByteSize + 3 ≤ lead 0 (.text ")" :: .text (result ++ " \x7b") :: tail) := by
      show _ ≤ 1 + ((result ++ " \x7b").utf8ByteSize + lead 0 tail)
      rw [hbraceSize]
      omega
    have hsizes : ">".utf8ByteSize = 1 ∧ "(".utf8ByteSize = 1 ∧ "".utf8ByteSize = 0 :=
      ⟨rfl, rfl, rfl⟩
    rw [hangle, hsizes.1, hsizes.2.1, hsizes.2.2]
    unfold headColumns at hwide
    cases isSpread with
    | true =>
      rw [if_pos rfl] at hwide ⊢
      omega
    | false =>
      rw [if_neg (by decide)] at hwide ⊢
      omega

end

/-! ## 3. Parameters -/

namespace Artifact

/-- A name in the runtime crate, after the double colons. -/
def traitMapper : Ident := .plain "TypeMapper"
@[inherit_doc traitMapper] def traitBuilder : Ident := .plain "ModelBuilder"
@[inherit_doc traitMapper] def traitTranslator : Ident := .plain "NameTranslator"

variable (runtime : NamePath)

def mapperPath : NamePath := runtime.child (i := traitMapper) (by decide)
def builderPath : NamePath := runtime.child (i := traitBuilder) (by decide)
def translatorPath : NamePath := runtime.child (i := traitTranslator) (by decide)

/-- The line of the translator among parameters. -/
def translatorLine (crate : String) : String :=
  "translator: Option<&dyn " ++ crate ++ "::NameTranslator>"

/-- Whether the type of the translator has a line of its own. -/
def translatorSpread : Bool := decide (margin < 4 + (translatorLine runtime.text).utf8ByteSize)

def namingPieces : List Piece :=
  .ident (.plain "translator") :: .punct ':' :: .blank ' ' :: .ident (.plain "Option") ::
    .punct '<' :: (Break.opening.pieces (translatorSpread runtime) 8 ++
      ([.punct '&', .ident (.plain "dyn"), .blank ' '] ++ ((translatorPath runtime).pieces ++
        (Break.last.pieces (translatorSpread runtime) 4 ++ [.punct '>']))))

/-- What stands between the angle brackets of the type of the translator. -/
def namingWords : List String := runtime.labelled "&dyn " "NameTranslator"

theorem namingDoc_toPath : namingDoc runtime.toPath =
    [.text "translator: Option", .text "<", .group true (single (namingWords runtime)),
      .text ">"] := by
  rw [namingDoc, runtime.runtimeDoc_toPath]
  rfl

theorem toList_namingWords : (String.join (namingWords runtime)).toList =
    textOf ([.punct '&', .ident (.plain "dyn"), .blank ' '] ++ (translatorPath runtime).pieces) :=
  runtime.toList_labelled (i := traitTranslator) (by decide) rfl

theorem size_translatorLine (crate : String) :
    (translatorLine crate).utf8ByteSize = crate.utf8ByteSize + 41 := by
  unfold translatorLine
  rw [String.utf8ByteSize_append, String.utf8ByteSize_append,
    show "translator: Option<&dyn ".utf8ByteSize = 24 from rfl,
    show "::NameTranslator>".utf8ByteSize = 17 from rfl]
  omega

theorem size_namingWords : (String.join (namingWords runtime)).utf8ByteSize =
    runtime.text.utf8ByteSize + 21 := by
  rw [namingWords, runtime.size_labelled, show "&dyn ".utf8ByteSize = 5 from rfl,
    show "NameTranslator".utf8ByteSize = 14 from rfl]
  omega

/-- The translator at the end of the parameters, each of which has a line. -/
theorem put_namingDoc (qs : List Piece) (after : Nat) (b : Break) (rest : List Doc) :
    ∃ used, putAll false 4 after (Pen.wrote qs 4) (namingDoc runtime.toPath ++ .maybe b :: rest) =
      putAll false 4 after (Pen.wrote (qs ++ namingPieces runtime) used) (.maybe b :: rest) := by
  have hspread : translatorSpread runtime = decide (margin < 4 + "translator: Option".utf8ByteSize +
      "<".utf8ByteSize + ((String.join (namingWords runtime)).utf8ByteSize +
        lead after (.text ">" :: .maybe b :: rest))) := by
    have hlead : lead after (.text ">" :: .maybe b :: rest) = 1 := by
      simp only [lead, width]
      rfl
    rw [hlead, size_namingWords, translatorSpread, size_translatorLine,
      show "translator: Option".utf8ByteSize = 18 from rfl, show "<".utf8ByteSize = 1 from rfl]
    exact decide_eq_decide.mpr (by omega)
  have hname : "translator: Option".toList =
      textOf [.ident (.plain "translator"), .punct ':', .blank ' ', .ident (.plain "Option")] := rfl
  rw [namingDoc_toPath]
  show ∃ used, putAll false 4 after (Pen.wrote qs 4) (.text "translator: Option" :: .text "<" ::
    .group true (single (namingWords runtime)) :: .text ">" :: .maybe b :: rest) = _
  rw [putAll_text hname, putAll_piece "<" (.punct '<') rfl,
    putAll_single (n := 8) (toList_namingWords runtime) hspread rfl (by decide),
    putAll_piece ">" (.punct '>') rfl]
  exact ⟨_, congrArg (fun qs => putAll false 4 after (Pen.wrote qs _) _) (by simp [namingPieces])⟩

theorem flatText_namingDoc : flatTextAll (namingDoc runtime.toPath) = translatorLine runtime.text := by
  rw [namingDoc_toPath]
  simp only [flatTextAll, flatText, flatTextAll_single, namingWords, NamePath.join_labelled]
  refine String.toList_inj.mp ?_
  unfold translatorLine
  simp

def mapParametersPieces : List Piece :=
  Break.opening.pieces true 4 ++ ([.ident (.plain "mapper"), .punct ':', .blank ' ', .punct '&',
    .lifetime (.plain "a"), .blank ' ', .ident (.plain "mut"), .blank ' ', .ident (.plain "M"),
    .punct ','] ++ (Break.between.pieces true 4 ++ (namingPieces runtime ++
      Break.last.pieces true 0)))

/-- The parameters of the function that maps. -/
def mapParameters : List (List Doc) := [[.text "mapper: &'a mut M"], namingDoc runtime.toPath]

theorem put_mapParameters (qs : List Piece) (used after : Nat) :
    putAll false 4 after (Pen.wrote qs used) (.maybe .opening :: items (mapParameters runtime)) =
      Pen.wrote (qs ++ mapParametersPieces runtime) 0 := by
  have hitems : items (mapParameters runtime) = .text "mapper: &'a mut M" :: .text "," ::
      .maybe .between :: (namingDoc runtime.toPath ++ [.maybe .last]) := by
    simp [mapParameters, items]
  have hmapper : "mapper: &'a mut M".toList = textOf [.ident (.plain "mapper"), .punct ':',
      .blank ' ', .punct '&', .lifetime (.plain "a"), .blank ' ', .ident (.plain "mut"),
      .blank ' ', .ident (.plain "M")] := rfl
  rw [hitems, putAll_break (n := 4) rfl (by decide), putAll_text hmapper,
    putAll_piece "," (.punct ',') rfl, putAll_break (n := 4) rfl (by decide)]
  obtain ⟨columns, hput⟩ := put_namingDoc runtime _ after .last []
  rw [hput, putAll_break (n := 0) rfl (by decide), putAll_nil]
  simp [mapParametersPieces, Break.pieces]

def declareParametersPieces : List Piece :=
  Break.opening.pieces true 4 ++ ([.ident (.plain "builder"), .punct ':', .blank ' ', .punct '&',
    .ident (.plain "mut"), .blank ' ', .ident (.plain "B"), .punct ','] ++
    (Break.between.pieces true 4 ++ ([.ident (.plain "schema"), .punct ':', .blank ' ',
      .ident (.plain "Option"), .punct '<', .punct '&', .ident (.plain "str"), .punct '>',
      .punct ','] ++ (Break.between.pieces true 4 ++ (namingPieces runtime ++
        Break.last.pieces true 0)))))

/-- The parameters of the function that declares. -/
def declareParameters : List (List Doc) :=
  [[.text "builder: &mut B"], [.text "schema: Option<&str>"], namingDoc runtime.toPath]

theorem put_declareParameters (qs : List Piece) (used after : Nat) :
    putAll false 4 after (Pen.wrote qs used)
        (.maybe .opening :: items (declareParameters runtime)) =
      Pen.wrote (qs ++ declareParametersPieces runtime) 0 := by
  have hitems : items (declareParameters runtime) = .text "builder: &mut B" :: .text "," ::
      .maybe .between :: .text "schema: Option<&str>" :: .text "," :: .maybe .between ::
      (namingDoc runtime.toPath ++ [.maybe .last]) := by
    simp [declareParameters, items]
  have hbuilder : "builder: &mut B".toList = textOf [.ident (.plain "builder"), .punct ':',
      .blank ' ', .punct '&', .ident (.plain "mut"), .blank ' ', .ident (.plain "B")] := rfl
  have hschema : "schema: Option<&str>".toList = textOf [.ident (.plain "schema"), .punct ':',
      .blank ' ', .ident (.plain "Option"), .punct '<', .punct '&', .ident (.plain "str"),
      .punct '>'] := rfl
  rw [hitems, putAll_break (n := 4) rfl (by decide), putAll_text hbuilder,
    putAll_piece "," (.punct ',') rfl, putAll_break (n := 4) rfl (by decide),
    putAll_text hschema, putAll_piece "," (.punct ',') rfl,
    putAll_break (n := 4) rfl (by decide)]
  obtain ⟨columns, hput⟩ := put_namingDoc runtime _ after .last []
  rw [hput, putAll_break (n := 0) rfl (by decide), putAll_nil]
  simp [declareParametersPieces, Break.pieces]

/-! ## 4. Generic parameters -/

/-- The generic parameters of the function that maps. -/
def mapGenerics : List (List Doc) :=
  [[.text "'a"], .text "M: " :: runtimeDoc runtime.toPath "TypeMapper"]

def mapGenericsPieces (isSpread : Bool) : List Piece :=
  Break.opening.pieces isSpread 4 ++ (.lifetime (.plain "a") :: .punct ',' ::
    (Break.between.pieces isSpread 4 ++ ([.ident (.plain "M"), .punct ':', .blank ' '] ++
      ((mapperPath runtime).pieces ++ Break.last.pieces isSpread 0))))

theorem items_mapGenerics : items (mapGenerics runtime) = .text "'a" :: .text "," ::
    .maybe .between :: ((runtime.labelled "M: " "TypeMapper").map .text ++ [.maybe .last]) := by
  simp [mapGenerics, items, NamePath.runtimeDoc_toPath, NamePath.labelled]

theorem toList_mapGenericsWords : (String.join (runtime.labelled "M: " "TypeMapper")).toList =
    textOf ([.ident (.plain "M"), .punct ':', .blank ' '] ++ (mapperPath runtime).pieces) :=
  runtime.toList_labelled (i := traitMapper) (by decide) rfl

theorem put_mapGenerics (qs : List Piece) (used after : Nat) :
    putAll false 4 after (Pen.wrote qs used) (.maybe .opening :: items (mapGenerics runtime)) =
      Pen.wrote (qs ++ mapGenericsPieces runtime true) 0 := by
  rw [items_mapGenerics, putAll_break (n := 4) rfl (by decide),
    putAll_piece "'a" (.lifetime (.plain "a")) rfl, putAll_piece "," (.punct ',') rfl,
    putAll_break (n := 4) rfl (by decide), putAll_words (toList_mapGenericsWords runtime),
    putAll_break (n := 0) rfl (by decide), putAll_nil]
  simp [mapGenericsPieces, Break.pieces]

theorem flatText_mapGenerics :
    flatTextAll (.maybe .opening :: items (mapGenerics runtime)) =
      "'a, " ++ String.join (runtime.labelled "M: " "TypeMapper") := by
  rw [items_mapGenerics]
  simp only [flatTextAll, flatText, flatTextAll_append, flatTextAll_texts]
  refine String.toList_inj.mp ?_
  simp [Break.opening, Break.between, Break.last]

theorem toList_mapGenerics :
    (flatTextAll (.maybe .opening :: items (mapGenerics runtime))).toList =
      textOf (mapGenericsPieces runtime false) := by
  rw [flatText_mapGenerics, String.toList_append, toList_mapGenericsWords]
  simp [mapGenericsPieces, Break.pieces, Break.opening, Break.between, Break.last, Piece.text]

/-- The generic parameters of the function that declares. -/
def declareGenerics : List (List Doc) :=
  [.text "B: " :: runtimeDoc runtime.toPath "ModelBuilder"]

def declareGenericsPieces (isSpread : Bool) : List Piece :=
  Break.opening.pieces isSpread 4 ++ ([.ident (.plain "B"), .punct ':', .blank ' '] ++
    ((builderPath runtime).pieces ++ Break.last.pieces isSpread 0))

theorem items_declareGenerics : items (declareGenerics runtime) =
    (runtime.labelled "B: " "ModelBuilder").map .text ++ [.maybe .last] := by
  simp [declareGenerics, items, NamePath.runtimeDoc_toPath, NamePath.labelled]

theorem toList_declareGenericsWords :
    (String.join (runtime.labelled "B: " "ModelBuilder")).toList =
      textOf ([.ident (.plain "B"), .punct ':', .blank ' '] ++ (builderPath runtime).pieces) :=
  runtime.toList_labelled (i := traitBuilder) (by decide) rfl

theorem put_declareGenerics (qs : List Piece) (used after : Nat) :
    putAll false 4 after (Pen.wrote qs used) (.maybe .opening :: items (declareGenerics runtime)) =
      Pen.wrote (qs ++ declareGenericsPieces runtime true) 0 := by
  rw [items_declareGenerics, putAll_break (n := 4) rfl (by decide),
    putAll_words (toList_declareGenericsWords runtime), putAll_break (n := 0) rfl (by decide),
    putAll_nil]
  simp [declareGenericsPieces, Break.pieces]

theorem flatText_declareGenerics :
    flatTextAll (.maybe .opening :: items (declareGenerics runtime)) =
      String.join (runtime.labelled "B: " "ModelBuilder") := by
  rw [items_declareGenerics]
  exact flatTextAll_single _

theorem toList_declareGenerics :
    (flatTextAll (.maybe .opening :: items (declareGenerics runtime))).toList =
      textOf (declareGenericsPieces runtime false) := by
  rw [flatText_declareGenerics, toList_declareGenericsWords]
  simp [declareGenericsPieces, Break.pieces, Break.opening, Break.last]

/-! ## 5. The two heads -/

/-- The line of the head of the function that maps, up to its parameters. -/
def mapLine (crate : String) : String :=
  "pub fn map_postgres_enums<'a, M: " ++ crate ++ "::TypeMapper>("

/-- The line of the head of the function that declares, up to its parameters. -/
def declareLine (crate : String) : String :=
  "pub fn register_postgres_enums<B: " ++ crate ++ "::ModelBuilder>("

/-- Whether the generic parameters of the function that maps have a line each. -/
def mapGenericsSpread : Bool := decide (margin < (mapLine runtime.text).utf8ByteSize)

/-- Whether the generic parameter of the function that declares has a line of its own. -/
def declareGenericsSpread : Bool := decide (margin < (declareLine runtime.text).utf8ByteSize)

theorem size_mapLine (crate : String) :
    (mapLine crate).utf8ByteSize = crate.utf8ByteSize + 47 := by
  unfold mapLine
  rw [String.utf8ByteSize_append, String.utf8ByteSize_append,
    show "pub fn map_postgres_enums<'a, M: ".utf8ByteSize = 33 from rfl,
    show "::TypeMapper>(".utf8ByteSize = 14 from rfl]
  omega

theorem size_declareLine (crate : String) :
    (declareLine crate).utf8ByteSize = crate.utf8ByteSize + 50 := by
  unfold declareLine
  rw [String.utf8ByteSize_append, String.utf8ByteSize_append,
    show "pub fn register_postgres_enums<B: ".utf8ByteSize = 34 from rfl,
    show "::ModelBuilder>(".utf8ByteSize = 16 from rfl]
  omega

theorem size_mapGenerics :
    (flatTextAll (.maybe .opening :: items (mapGenerics runtime))).utf8ByteSize =
      runtime.text.utf8ByteSize + 19 := by
  rw [flatText_mapGenerics, String.utf8ByteSize_append, NamePath.size_labelled,
    show "'a, ".utf8ByteSize = 4 from rfl, show "M: ".utf8ByteSize = 3 from rfl,
    show "TypeMapper".utf8ByteSize = 10 from rfl]
  omega

theorem size_declareGenerics :
    (flatTextAll (.maybe .opening :: items (declareGenerics runtime))).utf8ByteSize =
      runtime.text.utf8ByteSize + 17 := by
  rw [flatText_declareGenerics, NamePath.size_labelled, show "B: ".utf8ByteSize = 3 from rfl,
    show "ModelBuilder".utf8ByteSize = 12 from rfl]
  omega

/-- The parameters take no less than the last of them does. -/
theorem le_size_mapParameters : runtime.text.utf8ByteSize + 41 ≤
    (flatTextAll (.maybe .opening :: items (mapParameters runtime))).utf8ByteSize := by
  rw [← size_translatorLine, ← flatText_namingDoc]
  simp only [mapParameters, items, flatTextAll, flatTextAll_append, String.utf8ByteSize_append]
  omega

theorem le_size_declareParameters : runtime.text.utf8ByteSize + 56 ≤
    (flatTextAll (.maybe .opening :: items (declareParameters runtime))).utf8ByteSize := by
  have hlast := size_translatorLine runtime.text
  rw [← flatText_namingDoc] at hlast
  simp only [declareParameters, items, flatTextAll, flatTextAll_append, flatText,
    String.utf8ByteSize_append, hlast, show "builder: &mut B".utf8ByteSize = 15 from rfl]
  omega

/-- What the function that maps answers. -/
def resultPieces : List Piece :=
  [.blank ' ', .punct '-', .punct '>', .blank ' ', .punct '&', .lifetime (.plain "a"), .blank ' ',
    .ident (.plain "mut"), .blank ' ', .ident (.plain "M")]

theorem put_mapHead (entries : List Entry) (tail : List Doc) :
    ∃ used, putAll false 4 0 (Pen.wrote [] 0) (mapHead ⟨runtime.toPath, entries⟩ ++ tail) =
      putAll false 4 0 (Pen.wrote (headPieces (.plain "map_postgres_enums")
        (mapGenericsPieces runtime (mapGenericsSpread runtime)) (mapParametersPieces runtime)
        resultPieces ++ [.opening .brace]) used) tail := by
  have hcolumns : headColumns false "map_postgres_enums"
      (flatTextAll (.maybe .opening :: items (mapGenerics runtime))) =
        (mapLine runtime.text).utf8ByteSize := by
    rw [size_mapLine, headColumns, if_neg (by decide), size_mapGenerics,
      show ("pub fn " ++ "map_postgres_enums").utf8ByteSize = 25 from rfl]
    omega
  have hspread : mapGenericsSpread runtime = decide (margin < headColumns false "map_postgres_enums"
      (flatTextAll (.maybe .opening :: items (mapGenerics runtime)))) := by
    rw [hcolumns]
    rfl
  have hparameters := le_size_mapParameters runtime
  have hwide : margin < headColumns (mapGenericsSpread runtime) "map_postgres_enums"
        (flatTextAll (.maybe .opening :: items (mapGenerics runtime))) +
      ((flatTextAll (.maybe .opening :: items (mapParameters runtime))).utf8ByteSize +
        " -> &'a mut M".utf8ByteSize + 3) := by
    refine lt_headColumns (.plain "map_postgres_enums") hspread (fun hbroken => ?_) ?_
    · replace hbroken : margin < (mapLine runtime.text).utf8ByteSize := hcolumns ▸ hbroken
      rw [size_mapLine] at hbroken
      rw [show " -> &'a mut M".utf8ByteSize = 13 from rfl, show margin = 89 from rfl] at *
      omega
    · show margin < headColumns false "map_postgres_enums" _ + _
      rw [hcolumns, size_mapLine, show margin = 89 from rfl]
      omega
  exact put_headDoc (.plain "map_postgres_enums") tail hspread
    (fun hcase => by rw [hcase]; exact toList_mapGenerics runtime)
    (fun hcase qs used => by rw [hcase]; exact put_mapGenerics runtime qs used 2)
    hwide (put_mapParameters runtime) rfl

theorem put_declareHead (entries : List Entry) (tail : List Doc) :
    ∃ used, putAll false 4 0 (Pen.wrote [] 0) (declareHead ⟨runtime.toPath, entries⟩ ++ tail) =
      putAll false 4 0 (Pen.wrote (headPieces (.plain "register_postgres_enums")
        (declareGenericsPieces runtime (declareGenericsSpread runtime))
        (declareParametersPieces runtime) [] ++ [.opening .brace]) used) tail := by
  have hcolumns : headColumns false "register_postgres_enums"
      (flatTextAll (.maybe .opening :: items (declareGenerics runtime))) =
        (declareLine runtime.text).utf8ByteSize := by
    rw [size_declareLine, headColumns, if_neg (by decide), size_declareGenerics,
      show ("pub fn " ++ "register_postgres_enums").utf8ByteSize = 30 from rfl]
    omega
  -- The generics take a line each exactly if the line up to their end is too long.
  have hspread : declareGenericsSpread runtime =
      decide (margin < headColumns false "register_postgres_enums"
        (flatTextAll (.maybe .opening :: items (declareGenerics runtime)))) := by
    rw [hcolumns]
    rfl
  have hparameters := le_size_declareParameters runtime
  have hwide : margin < headColumns (declareGenericsSpread runtime) "register_postgres_enums"
        (flatTextAll (.maybe .opening :: items (declareGenerics runtime))) +
      ((flatTextAll (.maybe .opening :: items (declareParameters runtime))).utf8ByteSize +
        "".utf8ByteSize + 3) := by
    refine lt_headColumns (.plain "register_postgres_enums") hspread (fun hbroken => ?_) ?_
    · replace hbroken : margin < (declareLine runtime.text).utf8ByteSize := hcolumns ▸ hbroken
      rw [size_declareLine] at hbroken
      rw [show "".utf8ByteSize = 0 from rfl, show margin = 89 from rfl] at *
      omega
    · show margin < headColumns false "register_postgres_enums" _ + _
      rw [hcolumns, size_declareLine, show margin = 89 from rfl]
      omega
  exact put_headDoc (.plain "register_postgres_enums") tail hspread
    (fun hcase => by rw [hcase]; exact toList_declareGenerics runtime)
    (fun hcase qs used => by rw [hcase]; exact put_declareGenerics runtime qs used 2)
    hwide (put_declareParameters runtime) rfl

/-! ## 6. Tokens of the heads -/

/-- The signature of a function. `angle` says whether its angle bracket touches punctuation. -/
def signatureTokens (name : Ident) (angle : Bool) (generics parameters result : List Token) :
    List Token :=
  .word "fn" :: .ident name :: .punct '<' angle ::
    (generics ++ .punct '>' false :: .paren parameters :: result)

/-- `translator: Option<&dyn RT::NameTranslator>` -/
def namingTokens (touching : Bool) : List Token :=
  .word "translator" :: .punct ':' false :: .word "Option" ::
    .punct '<' (touching && !translatorSpread runtime) :: .punct '&' false :: .word "dyn" ::
    ((translatorPath runtime).tokens ++ (lastComma (translatorSpread runtime) ++
      [.punct '>' touching]))

/-- `'a, M: RT::TypeMapper` -/
def mapGenericsTokens : List Token :=
  .lifetime (.plain "a") :: .punct ',' false :: .word "M" :: .punct ':' false ::
    ((mapperPath runtime).tokens ++ lastComma (mapGenericsSpread runtime))

/-- `B: RT::ModelBuilder` -/
def declareGenericsTokens : List Token :=
  .word "B" :: .punct ':' false ::
    ((builderPath runtime).tokens ++ lastComma (declareGenericsSpread runtime))

/-- `mapper: &'a mut M, translator: …,` -/
def mapParametersTokens (touching : Bool) : List Token :=
  .word "mapper" :: .punct ':' false :: .punct '&' touching :: .lifetime (.plain "a") ::
    .word "mut" :: .word "M" :: .punct ',' false ::
    (namingTokens runtime touching ++ [.punct ',' false])

/-- `builder: &mut B, schema: Option<&str>, translator: …,` -/
def declareParametersTokens (touching : Bool) : List Token :=
  .word "builder" :: .punct ':' false :: .punct '&' false :: .word "mut" :: .word "B" ::
    .punct ',' false :: .word "schema" :: .punct ':' false :: .word "Option" ::
    .punct '<' touching :: .punct '&' false :: .word "str" :: .punct '>' touching ::
    .punct ',' false :: (namingTokens runtime touching ++ [.punct ',' false])

/-- `-> &'a mut M` -/
def resultTokens (touching : Bool) : List Token :=
  [.punct '-' true, .punct '>' false, .punct '&' touching, .lifetime (.plain "a"), .word "mut",
    .word "M"]

/-- `fn map_postgres_enums<…>(…) -> &'a mut M` -/
def mapSignature (touching : Bool) : List Token :=
  signatureTokens (.plain "map_postgres_enums") (touching && !mapGenericsSpread runtime)
    (mapGenericsTokens runtime) (mapParametersTokens runtime touching) (resultTokens touching)

/-- `fn register_postgres_enums<…>(…)` -/
def declareSignature (touching : Bool) : List Token :=
  signatureTokens (.plain "register_postgres_enums") false (declareGenericsTokens runtime)
    (declareParametersTokens runtime touching) []

theorem lexemesOf_namingPieces {rest : List Piece} (hrest : Lexer.touchesPunct rest = true) :
    lexemesOf (namingPieces runtime ++ rest) =
      flatAll (namingTokens runtime true) ++ lexemesOf rest := by
  simp only [namingPieces, namingTokens, List.cons_append, List.nil_append, List.append_assoc,
    lexemesOf, Piece.lexemes, Break.lexemesOf_pieces, Break.touchesPunct_pieces,
    NamePath.lexemesOf_pieces, Lexer.touchesPunct_ident, Lexer.touchesPunct_punct,
    Lexer.touchesPunct_blank, Token.word, flatAll, Lexer.flat, Lexer.flatAll_append, hrest]
  cases translatorSpread runtime <;> simp [Break.opening, Break.last, lastComma, flatAll]

theorem lexemesOf_mapGenericsPieces (rest : List Piece) :
    lexemesOf (mapGenericsPieces runtime (mapGenericsSpread runtime) ++ rest) =
      flatAll (mapGenericsTokens runtime) ++ lexemesOf rest := by
  simp only [mapGenericsPieces, mapGenericsTokens, List.cons_append, List.nil_append,
    List.append_assoc, lexemesOf, Piece.lexemes, Break.lexemesOf_pieces,
    Break.touchesPunct_pieces, NamePath.lexemesOf_pieces, Lexer.touchesPunct_blank, Token.word,
    flatAll, Lexer.flat, Lexer.flatAll_append]
  cases mapGenericsSpread runtime <;>
    simp [Break.opening, Break.between, Break.last, lastComma, flatAll]

theorem lexemesOf_declareGenericsPieces (rest : List Piece) :
    lexemesOf (declareGenericsPieces runtime (declareGenericsSpread runtime) ++ rest) =
      flatAll (declareGenericsTokens runtime) ++ lexemesOf rest := by
  simp only [declareGenericsPieces, declareGenericsTokens, List.cons_append, List.nil_append,
    List.append_assoc, lexemesOf, Piece.lexemes, Break.lexemesOf_pieces,
    NamePath.lexemesOf_pieces, Lexer.touchesPunct_blank, Token.word, flatAll, Lexer.flat,
    Lexer.flatAll_append]
  cases declareGenericsSpread runtime <;> simp [Break.opening, Break.last, lastComma, flatAll]

theorem lexemesOf_mapParametersPieces (rest : List Piece) :
    lexemesOf (mapParametersPieces runtime ++ rest) =
      flatAll (mapParametersTokens runtime true) ++ lexemesOf rest := by
  have htouches : Lexer.touchesPunct (Break.last.pieces true 0 ++ rest) = true := by simp [Break.last]
  simp only [mapParametersPieces, mapParametersTokens, List.cons_append, List.nil_append,
    List.append_assoc, lexemesOf, Piece.lexemes, Break.lexemesOf_pieces,
    Lexer.touchesPunct_blank, Lexer.touchesPunct_lifetime, Break.touchesPunct_pieces,
    lexemesOf_namingPieces runtime htouches, Token.word, flatAll,
    Lexer.flat, Lexer.flatAll_append]
  simp [Break.opening, Break.between, Break.last, lastComma, flatAll, Lexer.flat]

theorem lexemesOf_declareParametersPieces (rest : List Piece) :
    lexemesOf (declareParametersPieces runtime ++ rest) =
      flatAll (declareParametersTokens runtime true) ++ lexemesOf rest := by
  have htouches : Lexer.touchesPunct (Break.last.pieces true 0 ++ rest) = true := by simp [Break.last]
  simp only [declareParametersPieces, declareParametersTokens, List.cons_append, List.nil_append,
    List.append_assoc, lexemesOf, Piece.lexemes, Break.lexemesOf_pieces,
    Lexer.touchesPunct_ident, Lexer.touchesPunct_blank, Lexer.touchesPunct_punct,
    Break.touchesPunct_pieces, lexemesOf_namingPieces runtime htouches, Token.word, flatAll,
    Lexer.flat, Lexer.flatAll_append]
  simp [Break.opening, Break.between, Break.last, lastComma, flatAll, Lexer.flat]

/-! ## 7. No piece of a head runs into the next -/

theorem isPunct_heads : ∀ c ∈ [':', '<', '>', '&', ',', '-'], Lexer.isPunct c = true :=
  List.all_eq_true.mp rfl

theorem isBlank_space : Text.isBlank ' ' = true := by decide

section

variable {rest : List Piece} (h : isApart rest = true)

include h

theorem isApart_namingPieces : isApart (namingPieces runtime ++ rest) = true := by
  have hclose : isApart (.punct '>' :: rest) = true := h
  have hpath := (translatorPath runtime).isApart_pieces_break .last (translatorSpread runtime) 4
    hclose rfl
  simp [namingPieces, isApart, Piece.fits, hpath, isPunct_heads, isBlank_space]

theorem isApart_mapParametersPieces : isApart (mapParametersPieces runtime ++ rest) = true := by
  have hlast : isApart (Break.last.pieces true 0 ++ rest) = true := by rw [Break.isApart_pieces, h]
  have hnaming := isApart_namingPieces runtime hlast
  simp [mapParametersPieces, isApart, Piece.fits, hnaming, isPunct_heads, isBlank_space]

theorem isApart_declareParametersPieces :
    isApart (declareParametersPieces runtime ++ rest) = true := by
  have hlast : isApart (Break.last.pieces true 0 ++ rest) = true := by rw [Break.isApart_pieces, h]
  have hnaming := isApart_namingPieces runtime hlast
  simp [declareParametersPieces, isApart, Piece.fits, hnaming, isPunct_heads, isBlank_space]

variable (hword : endsWord rest = true)

include hword

theorem isApart_mapGenericsPieces (isSpread : Bool) :
    isApart (mapGenericsPieces runtime isSpread ++ rest) = true := by
  have hpath := (mapperPath runtime).isApart_pieces_break .last isSpread 0 h hword
  simp [mapGenericsPieces, isApart, Piece.fits, hpath, isPunct_heads, isBlank_space]

theorem isApart_declareGenericsPieces (isSpread : Bool) :
    isApart (declareGenericsPieces runtime isSpread ++ rest) = true := by
  have hpath := (builderPath runtime).isApart_pieces_break .last isSpread 0 h hword
  simp [declareGenericsPieces, isApart, Piece.fits, hpath, isPunct_heads, isBlank_space]

end

/-! ## 8. The heads as a whole -/

section

variable {name : Ident} {angle : Bool} {gs ps rs : List Piece} {gts pts rts : List Token}

theorem lexemesOf_headPieces (hangle : ∀ rest, Lexer.touchesPunct (gs ++ .punct '>' :: rest) = angle)
    (hgenerics : ∀ rest, lexemesOf (gs ++ rest) = flatAll gts ++ lexemesOf rest)
    (hparameters : ∀ rest, lexemesOf (ps ++ rest) = flatAll pts ++ lexemesOf rest)
    (hresult : ∀ rest, lexemesOf (rs ++ .blank ' ' :: rest) = flatAll rts ++ lexemesOf rest)
    (rest : List Piece) : lexemesOf (headPieces name gs ps rs ++ rest) =
      flatAll (.word "pub" :: signatureTokens name angle gts pts rts) ++ lexemesOf rest := by
  simp only [headPieces, signatureTokens, List.cons_append, List.nil_append, List.append_assoc,
    lexemesOf, Piece.lexemes, Lexer.touchesPunct_opening, hangle, hgenerics, hparameters, hresult,
    Token.word, Token.paren, flatAll, Lexer.flat, Lexer.flatAll_append]

theorem isApart_headPieces
    (hgenerics : ∀ rest, isApart rest = true → endsWord rest = true → isApart (gs ++ rest) = true)
    (hparameters : ∀ rest, isApart rest = true → isApart (ps ++ rest) = true)
    (hresult : ∀ rest, isApart rest = true → isApart (rs ++ .blank ' ' :: rest) = true)
    {rest : List Piece} (h : isApart rest = true) :
    isApart (headPieces name gs ps rs ++ rest) = true := by
  have hclose : isApart (.closing .paren :: (rs ++ .blank ' ' :: rest)) = true := hresult rest h
  have hopen : isApart (.punct '>' :: .opening .paren :: (ps ++
      .closing .paren :: (rs ++ .blank ' ' :: rest))) = true := hparameters _ hclose
  have hinner := hgenerics _ hopen rfl
  simp [headPieces, isApart, Piece.fits, hinner, isPunct_heads, isBlank_space]

end

end Artifact

end EnumCatalog
