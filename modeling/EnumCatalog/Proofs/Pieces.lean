import EnumCatalog.Proofs.Lexing

/-!
# Reading back what is written

A text that is written piece by piece is cut into the tokens of its pieces, as long as no piece runs
into the next (`isApart`): two words need a space between them, and a comment ends with its line.
Whether punctuation touches punctuation shows in the tokens, so the tokens of a piece depend on the
piece after it (`lexemesOf`).

The brackets among the pieces are paired last (`nest_lexemes`): a token stream is flattened into the
lexemes of its tokens, with each group between its two brackets, and pairing gives it back.
-/

set_option autoImplicit false

namespace EnumCatalog.Lexer

open Text

/-! ## 1. Pieces -/

/-- A unit of a text. -/
inductive Piece where
  | blank (c : Char)
  /-- The rest of a line, after two slashes. -/
  | comment (line : String)
  /-- The rest of a line, after three slashes. -/
  | doc (line : String)
  | ident (i : Ident)
  | lifetime (i : Ident)
  | punct (c : Char)
  /-- The string literal of a value. -/
  | literal (value : String)
  | opening (d : Delimiter)
  | closing (d : Delimiter)

/-- The bracket that opens a group. -/
def opener : Delimiter → Char
  | .paren => '('
  | .bracket => '['
  | .brace => '\x7b'

/-- The bracket that closes a group. -/
def closer : Delimiter → Char
  | .paren => ')'
  | .bracket => ']'
  | .brace => '\x7d'

def Piece.text : Piece → List Char
  | .blank c => [c]
  | .comment line => '/' :: '/' :: line.toList
  | .doc line => '/' :: '/' :: '/' :: line.toList
  | .ident i => i.text.toList
  | .lifetime i => '\'' :: i.text.toList
  | .punct c => [c]
  | .literal value => (quoted value).toList
  | .opening d => [opener d]
  | .closing d => [closer d]

/-- The text of pieces one after the other. -/
def textOf (ps : List Piece) : List Char := ps.flatMap Piece.text

@[simp] theorem textOf_nil : textOf [] = [] := rfl

@[simp] theorem textOf_cons (p : Piece) (ps : List Piece) : textOf (p :: ps) = p.text ++ textOf ps :=
  rfl

@[simp] theorem textOf_append (ps qs : List Piece) : textOf (ps ++ qs) = textOf ps ++ textOf qs := by
  simp [textOf]

/-- Whether a word or a literal may end before these pieces. -/
def endsWord : List Piece → Bool
  | .ident _ :: _ => false
  | .lifetime _ :: _ => false
  | .literal _ :: _ => false
  | .punct c :: _ => c != '#'
  | _ => true

/-- Whether punctuation comes next. -/
def touchesPunct : List Piece → Bool
  | .punct _ :: _ => true
  | .lifetime _ :: _ => true
  | _ => false

section

variable (ps : List Piece)

@[simp] theorem endsWord_blank (c : Char) : endsWord (.blank c :: ps) = true := rfl
@[simp] theorem endsWord_punct (c : Char) : endsWord (.punct c :: ps) = (c != '#') := rfl
@[simp] theorem endsWord_opening (d : Delimiter) : endsWord (.opening d :: ps) = true := rfl
@[simp] theorem endsWord_closing (d : Delimiter) : endsWord (.closing d :: ps) = true := rfl

@[simp] theorem touchesPunct_blank (c : Char) : touchesPunct (.blank c :: ps) = false := rfl
@[simp] theorem touchesPunct_ident (i : Ident) : touchesPunct (.ident i :: ps) = false := rfl
@[simp] theorem touchesPunct_lifetime (i : Ident) : touchesPunct (.lifetime i :: ps) = true := rfl
@[simp] theorem touchesPunct_punct (c : Char) : touchesPunct (.punct c :: ps) = true := rfl
@[simp] theorem touchesPunct_opening (d : Delimiter) : touchesPunct (.opening d :: ps) = false := rfl

end

/-- Whether a line ends before these pieces. -/
def endsLine : List Piece → Bool
  | .blank c :: _ => c == '\n'
  | _ => false

/-- Whether a piece is what it says it is and ends before what follows it. -/
def Piece.fits (next : List Piece) : Piece → Bool
  | .blank c => isBlank c
  | .comment line => endsLine next && !line.toList.contains '\n' &&
    line.toList.head?.all fun c => c != '/' && c != '!'
  | .doc line => endsLine next && !line.toList.contains '\n' && !line.toList.contains '\r' &&
    line.toList.head?.all fun c => c != '/'
  | .ident _ => endsWord next
  | .lifetime _ => endsWord next
  | .literal _ => endsWord next
  | .punct c => isPunct c && c != '/' && c != '\''
  | .opening _ => true
  | .closing _ => true

/-- Whether no piece runs into the next. -/
def isApart : List Piece → Bool
  | [] => true
  | p :: ps => p.fits ps && isApart ps

/-- The lexemes that a piece is read as in front of others. -/
def Piece.lexemes (next : List Piece) : Piece → List Lexeme
  | .blank _ => []
  | .comment _ => []
  | .doc line => docLexemes line.toList false
  | .ident i => [.leaf (.ident i)]
  | .lifetime i => [.leaf (.lifetime i)]
  | .punct c => [.leaf (.punct c (touchesPunct next))]
  | .literal value => [.leaf (.literal (quoted value))]
  | .opening d => [.opening d]
  | .closing d => [.closing d]

def lexemesOf : List Piece → List Lexeme
  | [] => []
  | p :: ps => p.lexemes ps ++ lexemesOf ps

/-! ## 2. What comes next -/

variable {p : Piece} {ps : List Piece}

theorem opensPunct_of_ne_slash {c : Char} (h : c ≠ '/') (text : List Char) :
    opensPunct (c :: text) = isPunct c := by
  unfold opensPunct
  split
  · next heq => exact absurd (List.cons.inj heq).1 h
  · next heq => exact absurd (List.cons.inj heq).1 h
  · next heq =>
    cases heq
    rfl
  · next heq => cases heq

theorem opensPunct_textOf (h : isApart ps = true) : opensPunct (textOf ps) = touchesPunct ps := by
  cases ps with
  | nil => rfl
  | cons p ps =>
    obtain ⟨hp, -⟩ := Bool.and_eq_true_iff.mp h
    cases p with
    | blank c =>
      have hslash : c ≠ '/' := by
        rintro rfl
        cases hp
      exact (opensPunct_of_ne_slash hslash _).trans (not_isPunct_of_isBlank hp)
    | comment line => rfl
    | doc line => rfl
    | ident i =>
      obtain ⟨c, text, heq, hc⟩ := exists_first i (textOf ps)
      have hslash : c ≠ '/' := ne_of_opensIdent hc (by decide)
      show opensPunct (i.text.toList ++ textOf ps) = false
      rw [heq, opensPunct_of_ne_slash hslash, not_isPunct_of_opensIdent hc]
    | lifetime i => rfl
    | punct c =>
      simp only [Piece.fits, Bool.and_eq_true, bne_iff_ne] at hp
      exact (opensPunct_of_ne_slash hp.1.2 _).trans hp.1.1
    | literal value =>
      show opensPunct ((quoted value).toList ++ textOf ps) = false
      simp only [quoted, String.toList_ofList, List.cons_append]
      exact opensPunct_of_ne_slash (by decide) _
    | opening d => cases d <;> rfl
    | closing d => cases d <;> rfl

/-- A first character before which a word ends. -/
theorem endsWord_cons {c : Char} (hc : continuesIdent c = false) (hquiet : c ∉ ['"', '\'', '#'])
    (text : List Char) : EndsWord (c :: text) := by
  refine ⟨fun d hd => ?_, fun d hd => ?_⟩
  · cases hd
    exact hquiet
  · cases hd
    exact hc

theorem endsWord_textOf (h : isApart ps = true) (hends : endsWord ps = true) :
    EndsWord (textOf ps) := by
  -- The first character that follows is that of the first piece.
  cases ps with
  | nil =>
    refine ⟨fun c hc => ?_, fun c hc => ?_⟩
    · cases hc
    · cases hc
  | cons p ps =>
    obtain ⟨hp, -⟩ := Bool.and_eq_true_iff.mp h
    cases p with
    | blank c =>
      refine endsWord_cons (not_continuesIdent_of_isBlank hp) (fun hmem => ?_) _
      have hnot : ∀ d ∈ ['"', '\'', '#'], isBlank d = false := forall_eq_false rfl
      have hblank : isBlank c = true := hp
      rw [hnot c hmem] at hblank
      cases hblank
    | comment line => exact endsWord_cons (by decide) (by decide) _
    | doc line => exact endsWord_cons (by decide) (by decide) _
    | ident i => cases hends
    | lifetime i => cases hends
    | punct c =>
      simp only [Piece.fits, Bool.and_eq_true, bne_iff_ne] at hp
      have hsign : c ≠ '#' := by simpa [endsWord] using hends
      have hplain := forall_isPunct (P := fun c => !continuesIdent c && c != '"') (by decide) hp.1.1
      simp only [Bool.and_eq_true, Bool.not_eq_true', bne_iff_ne] at hplain
      exact endsWord_cons hplain.1 (by simp [hplain.2, hp.2, hsign]) _
    | literal value => cases hends
    | opening d => cases d <;> exact endsWord_cons (by decide) (by decide) _
    | closing d => cases d <;> exact endsWord_cons (by decide) (by decide) _

/-- A line that ends is followed by a line feed. -/
theorem exists_of_endsLine (h : endsLine ps = true) : ∃ rest, textOf ps = '\n' :: rest := by
  match ps, h with
  | .blank c :: ps, h =>
    obtain rfl : c = '\n' := by simpa [endsLine] using h
    exact ⟨textOf ps, rfl⟩

/-! ## 3. One step -/

/-- A piece is cut off the text in front of others: it is skipped, or it is read as its lexemes. -/
def Steps (p : Piece) (ps : List Piece) : Prop :=
  (afterBlank? (p.text ++ textOf ps) = some (textOf ps) ∧ p.lexemes ps = []) ∨
    (afterBlank? (p.text ++ textOf ps) = none ∧
      lexemes? (p.text ++ textOf ps) = some (p.lexemes ps, textOf ps))

theorem afterBlank?_blank {c : Char} (hc : isBlank c = true) (text : List Char) :
    afterBlank? (c :: text) = some text := by
  have hslash : c ≠ '/' := by
    rintro rfl
    cases hc
  have hline : opensLineComment (c :: text) = false := by
    unfold opensLineComment
    split <;> simp_all
  have hblock : opensBlockComment (c :: text) = false := by
    unfold opensBlockComment
    split <;> simp_all
  simp [afterBlank?, hline, hblock, hc]

/-- No block comment comes next. -/
theorem not_isPrefixOf_textOf (h : isApart ps = true) (cs : List Char) :
    List.isPrefixOf ('/' :: '*' :: cs) (textOf ps) = false := by
  have hne : ∀ (c : Char) (text : List Char), c ≠ '/' →
      List.isPrefixOf ('/' :: '*' :: cs) (c :: text) = false := by
    intro c text hc
    simp [List.isPrefixOf, Ne.symm hc]
  -- Of all pieces only comments start with a slash, and their second character is one as well.
  cases ps with
  | nil => rfl
  | cons p ps =>
    obtain ⟨hp, -⟩ := Bool.and_eq_true_iff.mp h
    cases p with
    | blank c =>
      refine hne c _ ?_
      rintro rfl
      cases hp
    | comment line => rfl
    | doc line => rfl
    | ident i =>
      obtain ⟨c, text, heq, hc⟩ := exists_first i (textOf ps)
      show List.isPrefixOf ('/' :: '*' :: cs) (i.text.toList ++ textOf ps) = false
      rw [heq]
      exact hne c text (ne_of_opensIdent hc (by decide))
    | lifetime i => exact hne '\'' _ (by decide)
    | punct c =>
      simp only [Piece.fits, Bool.and_eq_true, bne_iff_ne] at hp
      exact hne c _ hp.1.2
    | literal value =>
      show List.isPrefixOf ('/' :: '*' :: cs) ((quoted value).toList ++ textOf ps) = false
      simp only [quoted, String.toList_ofList, List.cons_append]
      exact hne '"' _ (by decide)
    | opening d => cases d <;> exact hne _ _ (by decide)
    | closing d => cases d <;> exact hne _ _ (by decide)

theorem lexemes?_opening (d : Delimiter) (h : isApart ps = true) :
    lexemes? (opener d :: textOf ps) = some ([.opening d], textOf ps) := by
  have hplaceholder : errorPlaceholder.toList.isPrefixOf (opener d :: textOf ps) = false := by
    show List.isPrefixOf ('(' :: '/' :: '*' :: _) (opener d :: textOf ps) = false
    cases d with
    | paren => exact not_isPrefixOf_textOf h _
    | bracket => rfl
    | brace => rfl
  have hdoc : docComment? (opener d :: textOf ps) = none := by
    cases d <;> rfl
  unfold lexemes?
  rw [hdoc, hplaceholder]
  cases d <;> rfl

theorem steps_of_fits (hp : p.fits ps = true) (hps : isApart ps = true) : Steps p ps := by
  -- Blanks and comments are passed over; all other pieces are cut off, each by its own lemma.
  cases p with
  | blank c => exact .inl ⟨afterBlank?_blank hp _, rfl⟩
  | comment line =>
    simp only [Piece.fits, Bool.and_eq_true, Bool.not_eq_true', List.contains_eq_mem,
      decide_eq_false_iff_not] at hp
    obtain ⟨⟨hends, hline⟩, hfirst⟩ := hp
    obtain ⟨rest, heq⟩ := exists_of_endsLine hends
    refine .inl ⟨?_, rfl⟩
    rw [heq]
    refine afterBlank?_comment hline (fun c hc => ?_) rest
    rw [Option.mem_def.mp hc] at hfirst
    simpa using hfirst
  | doc line =>
    simp only [Piece.fits, Bool.and_eq_true, Bool.not_eq_true', List.contains_eq_mem,
      decide_eq_false_iff_not] at hp
    obtain ⟨⟨⟨hends, hline⟩, hcr⟩, hfirst⟩ := hp
    obtain ⟨rest, heq⟩ := exists_of_endsLine hends
    have hslash : ∀ c ∈ line.toList.head?, c ≠ '/' := by
      intro c hc
      rw [Option.mem_def.mp hc] at hfirst
      simpa using hfirst
    refine .inr ?_
    rw [heq]
    exact ⟨afterBlank?_doc hslash rest, lexemes?_doc hline hcr hslash rest⟩
  | ident i => exact .inr ⟨afterBlank?_word i _, lexemes?_word i (endsWord_textOf hps hp)⟩
  | lifetime i =>
    refine .inr ⟨afterBlank?_of_not_isBlank (by decide) (by decide) _, ?_⟩
    have hleaf := leaf?_lifetime i (endsWord_textOf hps hp)
    show lexemes? ('\'' :: (i.text.toList ++ textOf ps)) = _
    rw [lexemes?_of_leaf (by decide), hleaf]
    rfl
  | punct c =>
    simp only [Piece.fits, Bool.and_eq_true, bne_iff_ne] at hp
    obtain ⟨⟨hc, hslash⟩, hquote⟩ := hp
    have hplain := forall_isPunct (P := fun c => !isBlank c && ['(', '[', '\x7b', ')', ']', '\x7d'].all
      (c != ·)) (by decide) hc
    simp only [Bool.and_eq_true, Bool.not_eq_true'] at hplain
    refine .inr ⟨afterBlank?_of_not_isBlank hslash hplain.1 _, ?_⟩
    show lexemes? (c :: textOf ps) = _
    rw [lexemes?_of_leaf (by simpa [hslash] using hplain.2), leaf?_punct hc hslash hquote,
      opensPunct_textOf hps]
    rfl
  | literal value =>
    have hleaf := leaf?_quoted value (endsWord_textOf hps hp)
    simp only [quoted, String.toList_ofList, List.cons_append] at hleaf
    refine .inr ?_
    simp only [Piece.text, quoted, String.toList_ofList, List.cons_append]
    refine ⟨afterBlank?_of_not_isBlank (by decide) (by decide) _, ?_⟩
    rw [lexemes?_of_leaf (by decide), hleaf]
    rfl
  | opening d =>
    refine .inr ⟨?_, lexemes?_opening d hps⟩
    cases d <;> exact afterBlank?_of_not_isBlank (by decide) (by decide) _
  | closing d =>
    refine .inr ?_
    cases d <;> exact ⟨afterBlank?_of_not_isBlank (by decide) (by decide) _, rfl⟩

theorem Piece.text_ne_nil (p : Piece) : p.text ≠ [] := by
  cases p with
  | ident i =>
    obtain ⟨c, text, heq, -⟩ := exists_first i []
    intro hnil
    rw [List.append_nil] at heq
    cases heq.symm.trans hnil
  | literal value => simp [Piece.text, quoted]
  | _ => exact List.cons_ne_nil _ _

/-- A step of cutting, whichever of the two it is. -/
theorem go_succ_of_steps {p : Piece} (h : Steps p ps) (fuel : Nat) :
    cut.go (fuel + 1) (p.text ++ textOf ps) =
      (cut.go fuel (textOf ps)).map (p.lexemes ps ++ ·) := by
  obtain ⟨c, text, heq⟩ := List.exists_cons_of_ne_nil
    (List.append_ne_nil_of_left_ne_nil p.text_ne_nil (textOf ps))
  rcases h with ⟨hblank, hlexemes⟩ | ⟨hblank, hread⟩
  · rw [heq] at hblank ⊢
    rw [cut.go, hblank, hlexemes]
    · simp
    · simp
  · rw [heq] at hblank hread ⊢
    rw [cut.go, hblank, hread]
    simp

/-- Every step reads at least one character, so as many steps as there are characters are enough. -/
theorem go_textOf (h : isApart ps = true) {fuel : Nat} (hfuel : (textOf ps).length < fuel) :
    cut.go fuel (textOf ps) = some (lexemesOf ps) := by
  induction ps generalizing fuel with
  | nil =>
    cases fuel with
    | zero => cases hfuel
    | succ fuel => rfl
  | cons p ps ih =>
    obtain ⟨hp, hps⟩ := Bool.and_eq_true_iff.mp h
    have hpos := List.length_pos_iff.mpr p.text_ne_nil
    cases fuel with
    | zero => cases hfuel
    | succ fuel =>
      rw [textOf_cons, List.length_append] at hfuel
      rw [textOf_cons, go_succ_of_steps (steps_of_fits hp hps), ih hps (by omega)]
      rfl

/-- A text of pieces that do not run into each other is cut into the lexemes of the pieces. -/
theorem cut_textOf (h : isApart ps = true) : cut (textOf ps) = some (lexemesOf ps) :=
  go_textOf h (Nat.lt_succ_self _)

/-! ## 4. Brackets -/

mutual

/-- The lexemes of a token, with a group between its two brackets. -/
def flat : Token → List Lexeme
  | .group d inner => .opening d :: (flatAll inner ++ [.closing d])
  | t => [.leaf t]

def flatAll : List Token → List Lexeme
  | [] => []
  | t :: ts => flat t ++ flatAll ts

end

@[simp] theorem flatAll_append (ts us : List Token) : flatAll (ts ++ us) = flatAll ts ++ flatAll us := by
  induction ts with
  | nil => rfl
  | cons t ts ih =>
    rw [List.cons_append, flatAll, flatAll, ih, List.append_assoc]

mutual

theorem nest_flat (t : Token) (current : List Token) (outer : List (Delimiter × List Token))
    (rest : List Lexeme) : nest current outer (flat t ++ rest) = nest (t :: current) outer rest :=
  match t with
  | .ident _ => rfl
  | .lifetime _ => rfl
  | .punct _ _ => rfl
  | .literal _ => rfl
  | .group d inner => by
    show nest [] ((d, current) :: outer) (flatAll inner ++ [.closing d] ++ rest) = _
    rw [List.append_assoc, nest_flatAll inner]
    simp [nest]

theorem nest_flatAll (ts : List Token) (current : List Token)
    (outer : List (Delimiter × List Token)) (rest : List Lexeme) :
    nest current outer (flatAll ts ++ rest) = nest (ts.reverse ++ current) outer rest :=
  match ts with
  | [] => rfl
  | t :: ts => by
    show nest current outer (flat t ++ flatAll ts ++ rest) = _
    rw [List.append_assoc, nest_flat t, nest_flatAll ts]
    simp

end

theorem dropByteOrderMark_of_ne {c : Char} (h : c ≠ '\ufeff') (text : List Char) :
    dropByteOrderMark (c :: text) = c :: text := by
  unfold dropByteOrderMark
  split
  · next heq => exact absurd (List.cons.inj heq).1 h
  · rfl

/-- No piece starts with a byte order mark. -/
theorem dropByteOrderMark_textOf (h : isApart ps = true) :
    dropByteOrderMark (textOf ps) = textOf ps := by
  cases ps with
  | nil => rfl
  | cons p ps =>
    obtain ⟨hp, -⟩ := Bool.and_eq_true_iff.mp h
    cases p with
    | blank c =>
      refine dropByteOrderMark_of_ne ?_ _
      rintro rfl
      cases hp
    | comment line => rfl
    | doc line => rfl
    | ident i =>
      obtain ⟨c, text, heq, hc⟩ := exists_first i (textOf ps)
      show dropByteOrderMark (i.text.toList ++ textOf ps) = i.text.toList ++ textOf ps
      rw [heq]
      exact dropByteOrderMark_of_ne (ne_of_opensIdent hc (by decide +kernel)) _
    | lifetime i => rfl
    | punct c =>
      simp only [Piece.fits, Bool.and_eq_true] at hp
      have hascii := forall_isPunct (P := fun c => decide (c.toNat < 128)) (by decide) hp.1.1
      refine dropByteOrderMark_of_ne ?_ _
      rintro rfl
      exact absurd (of_decide_eq_true hascii) (by decide)
    | literal value =>
      show dropByteOrderMark ((quoted value).toList ++ textOf ps) = (quoted value).toList ++ textOf ps
      simp only [quoted, String.toList_ofList, List.cons_append]
      exact dropByteOrderMark_of_ne (by decide) _
    | opening d => cases d <;> rfl
    | closing d => cases d <;> rfl

/-- Pieces that do not run into each other are read as the tokens that they are the lexemes of. -/
theorem tokens?_textOf {ps : List Piece} {ts : List Token} (h : isApart ps = true)
    (hflat : lexemesOf ps = flatAll ts) : tokens? (String.ofList (textOf ps)) = some ts := by
  unfold tokens?
  rw [String.toList_ofList, dropByteOrderMark_textOf h, cut_textOf h, Option.bind_some, hflat]
  have hnest := nest_flatAll ts [] [] []
  rw [List.append_nil, List.append_nil] at hnest
  rw [hnest]
  simp [nest]

end EnumCatalog.Lexer
