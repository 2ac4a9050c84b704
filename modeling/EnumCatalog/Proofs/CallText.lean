import EnumCatalog.Artifact
import EnumCatalog.Proofs.PathTypes
import EnumCatalog.Proofs.Writing

/-!
# The text of a call

A call is laid out in one of three ways: on one line; with a line of its own for what follows the
variable; or with the path, and what follows it, on lines of their own too. In the third, the values
may be broken once more. Which of them it is depends on the bytes of the line that would be written.

A break adds a comma after the last item of its list and nothing else that the lexer keeps
(`Break.lexemesOf_pieces`), so all layouts of a call have the same tokens but for such commas.
-/

set_option autoImplicit false

namespace EnumCatalog

open Layout Layout.Doc
open Lexer (Piece Lexeme textOf lexemesOf flatAll isApart endsWord touchesPunct)
open Syntax (NamePath lastComma)

/-! ## 1. Paths -/

namespace Syntax.NamePath

/-- Names with double colons before each, as they are written. -/
def rootedWords : List Ident → List String
  | [] => []
  | i :: is => "::" :: i.text :: rootedWords is

/-- The pieces of names with double colons before each. -/
def rootedPieces : List Ident → List Piece
  | [] => []
  | i :: is => .punct ':' :: .punct ':' :: .ident i :: rootedPieces is

variable (p : NamePath)

/-- The names and double colons of the path as they are written. -/
def words : List String :=
  (if p.leading then ["::"] else []) ++ p.first.text :: rootedWords p.others

def text : String := String.join p.words

def pieces : List Piece :=
  (if p.leading then [.punct ':', .punct ':'] else []) ++ .ident p.first :: rootedPieces p.others

theorem toList_rootedWords (is : List Ident) :
    (rootedWords is).flatMap String.toList = textOf (rootedPieces is) := by
  induction is with
  | nil => rfl
  | cons i is ih =>
    rw [rootedWords, List.flatMap_cons, List.flatMap_cons, ih]
    rfl

theorem toList_text : p.text.toList = textOf p.pieces := by
  rw [text, String.toList_join, words, List.flatMap_append, List.flatMap_cons, toList_rootedWords,
    pieces, Lexer.textOf_append, Lexer.textOf_cons]
  cases p.leading <;> rfl

theorem intercalate_doc (i : Ident) (is : List Ident) :
    List.intercalate [.text "::"] (((i :: is).map (⟨·, none⟩)).map Segment.doc) =
      (i.text :: rootedWords is).map Doc.text := by
  induction is generalizing i with
  | nil => rfl
  | cons i' is ih =>
    show List.intercalate [.text "::"] ([Doc.text i.text] ::
      ((i' :: is).map (⟨·, none⟩)).map Segment.doc) = _
    rw [List.map_cons, List.map_cons, List.intercalate_cons_cons]
    have htail := ih i'
    rw [List.map_cons, List.map_cons] at htail
    rw [htail]
    rfl

theorem doc_toPath : p.toPath.doc = p.words.map .text := by
  unfold Path.doc words
  rw [List.map_append, ← intercalate_doc]
  cases hleading : p.leading <;> simp [toPath, hleading]

theorem lexemesOf_rootedPieces (is : List Ident) (rest : List Piece) :
    lexemesOf (rootedPieces is ++ rest) = flatAll (rooted is) ++ lexemesOf rest := by
  induction is with
  | nil => rfl
  | cons i is ih => exact congrArg (_ :: _ :: _ :: ·) ih

theorem lexemesOf_pieces (rest : List Piece) :
    lexemesOf (p.pieces ++ rest) = flatAll p.tokens ++ lexemesOf rest := by
  have hothers := lexemesOf_rootedPieces p.others rest
  unfold pieces tokens
  cases p.leading with
  | true => exact congrArg (_ :: _ :: _ :: ·) hothers
  | false => exact congrArg (_ :: ·) hothers

theorem touchesPunct_pieces (rest : List Piece) : touchesPunct (p.pieces ++ rest) = p.leading := by
  unfold pieces
  cases p.leading <;> rfl

theorem isApart_rootedPieces {rest : List Piece} (h : isApart rest = true)
    (hword : endsWord rest = true) (is : List Ident) :
    isApart (rootedPieces is ++ rest) = true ∧ endsWord (rootedPieces is ++ rest) = true := by
  induction is with
  | nil => exact ⟨h, hword⟩
  | cons i is ih =>
    have hname : isApart (.ident i :: (rootedPieces is ++ rest)) = true :=
      Bool.and_eq_true_iff.mpr ⟨ih.2, ih.1⟩
    exact ⟨hname, rfl⟩

theorem isApart_pieces {rest : List Piece} (h : isApart rest = true) (hword : endsWord rest = true) :
    isApart (p.pieces ++ rest) = true := by
  obtain ⟨hapart, hends⟩ := isApart_rootedPieces h hword p.others
  have hfirst : isApart (.ident p.first :: (rootedPieces p.others ++ rest)) = true :=
    Bool.and_eq_true_iff.mpr ⟨hends, hapart⟩
  unfold pieces
  cases p.leading with
  | true => exact hfirst
  | false => exact hfirst

/-- The path in front of a break. -/
theorem isApart_pieces_break (b : Break) (taken : Bool) (n : Nat) {rest : List Piece}
    (h : isApart rest = true) (hword : endsWord rest = true) :
    isApart (p.pieces ++ (b.pieces taken n ++ rest)) = true := by
  refine p.isApart_pieces ?_ ?_
  · rw [Break.isApart_pieces, h]
  · rw [Break.endsWord_pieces, hword, Bool.or_true]

end Syntax.NamePath

/-! ## 2. Calls -/

/-- A call as it is written. It is `wrapped` if what follows the variable has lines of its own, and
`spread` if the path has one too. -/
def callPieces (receiver method : Ident) (p : NamePath) (wrapped spread : Bool)
    (values : List Piece) : List Piece :=
  .ident receiver :: (Break.opening.pieces wrapped 8 ++
    .punct '.' :: .ident method :: .punct ':' :: .punct ':' :: .punct '<' ::
    (Break.opening.pieces spread 12 ++ (p.pieces ++ (Break.last.pieces spread 8 ++
      .punct '>' :: .opening .paren :: (values ++ [.closing .paren])))))

/-- The line of a call from its point on. -/
def callLine (method : String) (p : NamePath) (values : String) : String :=
  "." ++ method ++ "::<" ++ p.text ++ ">(" ++ values ++ ");"

/-- The line of the values of a call, from the bracket that closes its path on. -/
def valuesLine (values : String) : String := ">(" ++ values ++ ");"

theorem size_callLine (method : String) (p : NamePath) (values : String) :
    (callLine method p values).utf8ByteSize =
      method.utf8ByteSize + p.text.utf8ByteSize + values.utf8ByteSize + 8 := by
  have hopen : "::<".utf8ByteSize = 3 := rfl
  have hclose : ">(".utf8ByteSize = 2 := rfl
  have hend : ");".utf8ByteSize = 2 := rfl
  have hpoint : ".".utf8ByteSize = 1 := rfl
  simp only [callLine, String.utf8ByteSize_append, hopen, hclose, hend, hpoint]
  omega

theorem size_valuesLine (values : String) :
    (valuesLine values).utf8ByteSize = values.utf8ByteSize + 4 := by
  have hclose : ">(".utf8ByteSize = 2 := rfl
  have hend : ");".utf8ByteSize = 2 := rfl
  simp only [valuesLine, String.utf8ByteSize_append, hclose, hend]
  omega

/-- The parts of a call. -/
def callParts (receiver method : Ident) (path values : List Doc) : List Doc :=
  [.text receiver.text, .maybe .opening, .text ("." ++ method.text ++ "::"), .text "<",
    .group true path, .text ">", .text "(", .group true values, .text ")"]

theorem callDoc_eq (receiver method : Ident) (p : NamePath) (arguments : List (List Doc)) :
    callDoc receiver.text method.text p.toPath arguments =
      [.group true (callParts receiver method (single p.words) (.maybe .opening :: items arguments)),
        .text ";"] := by
  rw [callParts, single, ← p.doc_toPath]
  rfl

section

variable {receiver method : Ident} {p : NamePath} {path values : List Doc} {written : List Piece}
  {ps : List Piece} {used : Nat}

theorem flatText_path (p : NamePath) : flatTextAll (single p.words) = p.text :=
  flatTextAll_single p.words

theorem flatText_callParts : flatTextAll (callParts receiver method path values) =
    receiver.text ++ ("." ++ method.text ++ "::" ++ ("<" ++ (flatTextAll path ++ (">" ++ ("(" ++
      (flatTextAll values ++ ")")))))) := by
  simp only [callParts, flatTextAll, flatText, Break.opening, Bool.false_eq_true, if_false,
    String.empty_append, String.append_empty]

theorem size_callParts : (flatTextAll (callParts receiver method (single p.words) values)).utf8ByteSize =
    receiver.text.utf8ByteSize + method.text.utf8ByteSize + p.text.utf8ByteSize +
      (flatTextAll values).utf8ByteSize + 7 := by
  have hpoint : ".".utf8ByteSize = 1 := rfl
  have hcolons : "::".utf8ByteSize = 2 := rfl
  have hangle : "<".utf8ByteSize = 1 := rfl
  have hangle' : ">".utf8ByteSize = 1 := rfl
  have hparen : "(".utf8ByteSize = 1 := rfl
  have hparen' : ")".utf8ByteSize = 1 := rfl
  simp only [flatText_callParts, flatText_path, String.utf8ByteSize_append, hpoint, hcolons,
    hangle, hangle', hparen, hparen']
  omega

theorem toList_callParts (hvalues : (flatTextAll values).toList = textOf written) :
    (flatTextAll (callParts receiver method (single p.words) values)).toList =
      textOf (callPieces receiver method p false false written) := by
  simp [flatText_callParts, flatText_path, hvalues, p.toList_text, callPieces, Break.pieces,
    Break.opening, Break.last, Piece.text, Lexer.opener, Lexer.closer]

/-- A call on one line. -/
theorem put_call_flat (hvalues : (flatTextAll values).toList = textOf written)
    (hfits : used + (receiver.text ++ callLine method.text p (flatTextAll values)).utf8ByteSize ≤
      margin) :
    ∃ used', putAll false 4 0 (Pen.wrote ps used)
        [.group true (callParts receiver method (single p.words) values), .text ";"] =
      Pen.wrote (ps ++ callPieces receiver method p false false written ++ [.punct ';']) used' := by
  have hsemi : lead 0 [.text ";"] = 1 := rfl
  rw [String.utf8ByteSize_append, size_callLine] at hfits
  rw [putAll_group_of_fits (toList_callParts hvalues) (by rw [size_callParts, hsemi]; omega),
    putAll_piece ";" (.punct ';') rfl, putAll_nil]
  exact ⟨_, rfl⟩

/-- The values of a call, which are broken only if there is no room for them after the bracket that
closes the path. -/
theorem put_values
    (hflat : 8 + (valuesLine (flatTextAll values)).utf8ByteSize ≤ margin →
      (flatTextAll values).toList = textOf written)
    (hbroken : margin < 8 + (valuesLine (flatTextAll values)).utf8ByteSize →
      ∀ ps, ∃ used', putAll false 12 2 (Pen.wrote ps 10) values = Pen.wrote (ps ++ written) used')
    (hused : used = 10 ∨ 10 ≤ used ∧ used + ((flatTextAll values).utf8ByteSize + 2) ≤ margin) :
    ∃ used', putAll false 8 1 (Pen.wrote ps used) [.group true values, .text ")"] =
      Pen.wrote (ps ++ written ++ [.closing .paren]) used' := by
  have hlead : lead 1 [.text ")"] = 2 := rfl
  rw [size_valuesLine] at hflat hbroken
  by_cases hfits : used + ((flatTextAll values).utf8ByteSize + 2) ≤ margin
  · rw [putAll_group_of_fits (hflat (by omega)) hfits, putAll_piece ")" (.closing .paren) rfl,
      putAll_nil]
    exact ⟨_, rfl⟩
  · obtain rfl : used = 10 := by omega
    obtain ⟨used', hwritten⟩ := hbroken (by omega) ps
    rw [putAll_group_of_not (n := 12) rfl (Nat.not_le.mp hfits), hlead, hwritten,
      putAll_piece ")" (.closing .paren) rfl, putAll_nil]
    exact ⟨_, rfl⟩

/-- A call over several lines. -/
theorem put_call_wrapped
    (hbreaks : margin < used +
      (receiver.text ++ callLine method.text p (flatTextAll values)).utf8ByteSize)
    (hflat : 8 + (valuesLine (flatTextAll values)).utf8ByteSize ≤ margin →
      (flatTextAll values).toList = textOf written)
    (hbroken : margin < 8 + (valuesLine (flatTextAll values)).utf8ByteSize →
      ∀ ps, ∃ used', putAll false 12 2 (Pen.wrote ps 10) values = Pen.wrote (ps ++ written) used') :
    let spread := decide (margin < 8 + (callLine method.text p (flatTextAll values)).utf8ByteSize)
    ∃ used', putAll false 4 0 (Pen.wrote ps used)
        [.group true (callParts receiver method (single p.words) values), .text ";"] =
      Pen.wrote (ps ++ callPieces receiver method p true spread written ++ [.punct ';']) used' := by
  intro spread
  have hangle : "<".utf8ByteSize = 1 := rfl
  have hreceiver : receiver.text.toList = textOf [.ident receiver] := by simp [Piece.text]
  have hmethod : ("." ++ method.text ++ "::").toList =
      textOf [.punct '.', .ident method, .punct ':', .punct ':'] := by
    simp [Piece.text]
  have hmethodSize : ("." ++ method.text ++ "::").utf8ByteSize = method.text.utf8ByteSize + 3 := by
    have hpoint : ".".utf8ByteSize = 1 := rfl
    have hcolons : "::".utf8ByteSize = 2 := rfl
    rw [String.utf8ByteSize_append, String.utf8ByteSize_append, hpoint, hcolons]
    omega
  have hsemi : lead 0 [.text ";"] = 1 := rfl
  have hvalues : lead 1 [.text ">", .text "(", .group true values, .text ")"] =
      (flatTextAll values).utf8ByteSize + 4 := by
    show 1 + (1 + (widthAll values + (1 + 1))) = _
    rw [widthAll_eq]
    omega
  have hspread : spread = decide (margin < 8 + ("." ++ method.text ++ "::").utf8ByteSize +
      "<".utf8ByteSize + (p.text.utf8ByteSize +
        lead 1 [.text ">", .text "(", .group true values, .text ")"])) := by
    rw [hmethodSize, hangle, hvalues]
    exact decide_eq_decide.mpr (by rw [size_callLine]; omega)
  rw [String.utf8ByteSize_append, size_callLine] at hbreaks
  rw [putAll_group_of_not (n := 8) rfl (by rw [size_callParts, hsemi]; omega), hsemi, callParts,
    putAll_text hreceiver, putAll_break (n := 8) rfl (by decide), putAll_text hmethod,
    putAll_piece "<" (.punct '<') rfl,
    putAll_single (n := 12) p.toList_text hspread rfl (by decide), putAll_piece ">" (.punct '>') rfl,
    putAll_piece "(" (.opening .paren) rfl]
  -- There is room for the values after a path that fits, and a path of its own line leaves enough.
  have hused : ∀ used, used = (if spread then 8 else 8 + ("." ++ method.text ++ "::").utf8ByteSize +
      "<".utf8ByteSize + (String.join p.words).utf8ByteSize) + 1 + 1 →
      used = 10 ∨ 10 ≤ used ∧ used + ((flatTextAll values).utf8ByteSize + 2) ≤ margin := by
    intro used hused
    cases hcase : spread with
    | true =>
      rw [hcase, if_pos rfl] at hused
      exact .inl hused
    | false =>
      rw [hcase, if_neg (by decide), show String.join p.words = p.text from rfl] at hused
      have hfits := Nat.not_lt.mp (of_decide_eq_false hcase)
      rw [size_callLine] at hfits
      exact .inr (by omega)
  obtain ⟨used', hput⟩ := put_values hflat hbroken (hused _ rfl)
  show ∃ used', putAll false 4 0 (putAll false 8 1 (Pen.wrote _ (_ + 1 + 1)) _) _ = _
  rw [hput, putAll_piece ";" (.punct ';') rfl, putAll_nil]
  exact ⟨_, congrArg (Pen.wrote · _) (by simp [callPieces, Break.pieces])⟩

variable (receiver method p) in
/-- The statement of a call, in whichever way it is laid out. -/
theorem toList_render_call (hreceiver : 4 ≤ receiver.text.utf8ByteSize)
    {arguments : List (List Doc)} (hvalues : values = .maybe .opening :: items arguments)
    (hflat : 8 + (valuesLine (flatTextAll values)).utf8ByteSize ≤ margin →
      (flatTextAll values).toList = textOf written)
    (hbroken : margin < 8 + (valuesLine (flatTextAll values)).utf8ByteSize →
      ∀ ps, ∃ used', putAll false 12 2 (Pen.wrote ps 10) values = Pen.wrote (ps ++ written) used') :
    let line := callLine method.text p (flatTextAll values)
    let wrapped := decide (margin < 4 + (receiver.text ++ line).utf8ByteSize)
    let spread := decide (margin < 8 + line.utf8ByteSize)
    (render 4 4 (callDoc receiver.text method.text p.toPath arguments)).toList =
      textOf (List.replicate 4 (.blank ' ') ++ callPieces receiver method p wrapped spread written ++
        [.punct ';', .blank '\n']) := by
  intro line wrapped spread
  rw [callDoc_eq, ← hvalues]
  -- If the call does not fit on one line, its method comes on the next; if it does, all of it is
  -- flat.
  cases hwrapped : wrapped with
  | true =>
    obtain ⟨used, hput⟩ := put_call_wrapped (of_decide_eq_true hwrapped) hflat hbroken
    rw [toList_render 4 (by decide) hput]
    simp [spread, line]
  | false =>
    have hfits := Nat.not_lt.mp (of_decide_eq_false hwrapped)
    have hline : 8 + line.utf8ByteSize ≤ margin := by
      rw [String.utf8ByteSize_append] at hfits
      omega
    have hspread : spread = false := decide_eq_false (Nat.not_lt.mpr hline)
    have hshort : 8 + (valuesLine (flatTextAll values)).utf8ByteSize ≤ margin := by
      rw [size_callLine] at hline
      rw [size_valuesLine]
      omega
    obtain ⟨used, hput⟩ := put_call_flat (hflat hshort) hfits
    rw [toList_render 4 (by decide) hput, hspread]
    simp

end

/-! ## 3. Tokens of a call -/

/-- The tokens of a call. In a text punctuation that touches what comes next is marked so; what is
read from it prints without. -/
def callTokens (touching : Bool) (receiver method : Ident) (p : NamePath) (comma : Bool)
    (values : List Token) : List Token :=
  .ident receiver :: .punct '.' false :: .ident method :: .punct ':' true ::
    .punct ':' touching :: .punct '<' (touching && !comma && p.leading) ::
    (p.tokens ++ (lastComma comma ++ [.punct '>' false, .paren values]))

section

variable {receiver method : Ident} {p : NamePath} {written rest : List Piece}
  {values : List Token}

theorem lexemesOf_callPieces (wrapped spread : Bool)
    (hvalues : ∀ rest, lexemesOf (written ++ rest) = flatAll values ++ lexemesOf rest) :
    lexemesOf (callPieces receiver method p wrapped spread written ++ rest) =
      flatAll (callTokens true receiver method p spread values) ++ lexemesOf rest := by
  simp only [callPieces, callTokens, List.cons_append, List.nil_append, List.append_assoc,
    lexemesOf, Piece.lexemes, Break.lexemesOf_pieces, Break.touchesPunct_pieces,
    p.lexemesOf_pieces, p.touchesPunct_pieces, Lexer.touchesPunct_ident, Lexer.touchesPunct_punct,
    Lexer.touchesPunct_opening, hvalues, Token.paren, flatAll, Lexer.flat, Lexer.flatAll_append]
  cases spread <;> simp [Break.opening, Break.last, lastComma, flatAll]

theorem isApart_callPieces (wrapped spread : Bool) (hrest : isApart rest = true)
    (hvalues : ∀ rest, isApart rest = true → endsWord rest = true →
      isApart (written ++ rest) = true) :
    isApart (callPieces receiver method p wrapped spread written ++ rest) = true := by
  have hclose : isApart (.closing .paren :: rest) = true := hrest
  have hopen : isApart (.punct '>' :: .opening .paren :: (written ++ .closing .paren :: rest)) =
      true := hvalues _ hclose rfl
  have hpath : isApart (p.pieces ++ (Break.last.pieces spread 8 ++
      .punct '>' :: .opening .paren :: (written ++ .closing .paren :: rest))) = true :=
    p.isApart_pieces_break .last spread 8 hopen rfl
  have hpunct : Lexer.isPunct '.' = true ∧ Lexer.isPunct ':' = true ∧ Lexer.isPunct '<' = true := by
    decide
  simp [callPieces, isApart, Piece.fits, hpath, hpunct]

theorem spells_call (wrapped spread : Bool)
    (hlexemes : ∀ rest, lexemesOf (written ++ rest) = flatAll values ++ lexemesOf rest)
    (hapart : ∀ rest, isApart rest = true → endsWord rest = true →
      isApart (written ++ rest) = true) :
    Spells (List.replicate 4 (.blank ' ') ++ callPieces receiver method p wrapped spread written ++
      [.punct ';', .blank '\n'])
      (callTokens true receiver method p spread values ++ [.punct ';' false]) where
  lexemes rest := by
    rw [List.append_assoc, List.append_assoc, Break.lexemesOf_spaces,
      lexemesOf_callPieces wrapped spread hlexemes, Lexer.flatAll_append, List.append_assoc]
    rfl
  apart rest hrest := by
    have hend : isApart ([.punct ';', .blank '\n'] ++ rest) = true := hrest
    rw [List.append_assoc, List.append_assoc, Break.isApart_spaces]
    exact isApart_callPieces wrapped spread hend hapart

end

end EnumCatalog
