import EnumCatalog.Proofs.Pieces

/-!
# Texts of names, read backward

What stands in a text whose tokens are names and colons. If there is no slash in it, and so no
comment, then it is made of names, colons and blank characters, as pieces that do not run into each
other (`exists_pieces`). So such a text may be put between other pieces, where it is read as the same
tokens (`tokens?_between`).
-/

set_option autoImplicit false

namespace EnumCatalog.Lexer

open Text

/-! ## 1. Identifiers -/

variable {text rest : List Char}

/-- A name takes in every character that could continue it. -/
theorem eq_of_name? {name : List Char} (h : name? text = some (name, rest)) :
    text = name ++ rest ∧ ∀ c ∈ rest.head?, continuesIdent c = false := by
  unfold name? at h
  split at h
  · cases h
  · next c cs =>
    split at h
    · cases h
      refine ⟨?_, fun d hd => ?_⟩
      · rw [List.cons_append, List.takeWhile_append_dropWhile]
      · have hstop := List.head?_dropWhile_not continuesIdent cs
        rw [Option.mem_def.mp hd] at hstop
        simpa using hstop
    · cases h

/-- An identifier takes in every character that could continue it. -/
theorem eq_of_anyIdent? {i : Ident} (h : anyIdent? text = some (i, rest)) :
    text = i.text.toList ++ rest ∧ ∀ c ∈ rest.head?, continuesIdent c = false := by
  unfold anyIdent? at h
  split at h
  · split at h
    · next name rest' hname =>
      split at h
      · cases h
      · cases h
        obtain ⟨rfl, hrest⟩ := eq_of_name? hname
        exact ⟨by simp [Ident.text], hrest⟩
    · cases h
  · split at h
    · next name rest' hname =>
      cases h
      obtain ⟨rfl, hrest⟩ := eq_of_name? hname
      exact ⟨by simp [Ident.text], hrest⟩
    · cases h

/-! ## 2. Pieces -/

/-- The pieces that texts of names are made of. -/
def Piece.isOfNames : Piece → Bool
  | .blank c => isBlank c
  | .ident _ => true
  | .punct c => c == ':'
  | _ => false

/-- The lexemes of names and colons. -/
def Lexeme.isOfNames : Lexeme → Bool
  | .leaf (.ident _) => true
  | .leaf (.punct c _) => c == ':'
  | _ => false

variable {found : List Lexeme}

/-- A leaf that is a name or a colon is that piece of the text. -/
theorem exists_piece_of_leaf? {t : Token} (h : leaf? text = some (t, rest))
    (ht : (Lexeme.leaf t).isOfNames = true) :
    (∃ i, t = .ident i ∧ text = i.text.toList ++ rest ∧
      ∀ c ∈ rest.head?, continuesIdent c = false) ∨
    (t = .punct ':' (opensPunct rest) ∧ text = ':' :: rest) := by
  unfold leaf? at h
  -- Literals and lifetimes are no parts of names. What is left is a colon or an identifier.
  split at h
  · cases h
    cases ht
  · split at h
    · next found hpunct =>
      cases h
      refine .inr ?_
      unfold punct? at hpunct
      split at hpunct
      · split at hpunct
        · obtain ⟨⟨i, after⟩, -, hpunct⟩ := Option.map_eq_some_iff.mp hpunct
          cases hpunct
          cases ht
        · cases hpunct
          cases beq_iff_eq.mp ht
          exact ⟨rfl, rfl⟩
        · cases hpunct
      · cases hpunct
    · obtain ⟨⟨i, after⟩, hident, h⟩ := Option.map_eq_some_iff.mp h
      cases h
      refine .inl ⟨i, rfl, ?_⟩
      unfold ident? at hident
      split at hident
      · cases hident
      · exact eq_of_anyIdent? hident

/-- A bracket is no name, nor is the placeholder that starts with one. -/
theorem not_isOfNames_of_bracket {c : Char} (hc : c ∈ ['(', '[', '\x7b', ')', ']', '\x7d'])
    (h : lexemes? (c :: text) = some (found, rest)) : ∃ l ∈ found, l.isOfNames = false := by
  simp only [List.mem_cons, List.not_mem_nil, or_false] at hc
  have hdoc : docComment? (c :: text) = none := by
    rcases hc with rfl | rfl | rfl | rfl | rfl | rfl <;> rfl
  unfold lexemes? at h
  simp only [hdoc] at h
  split at h
  · cases h
    exact ⟨_, List.mem_singleton_self _, rfl⟩
  · rcases hc with rfl | rfl | rfl | rfl | rfl | rfl <;>
      exact ⟨_, (Prod.mk.inj (Option.some.inj h)).1 ▸ List.mem_singleton_self _, rfl⟩

theorem exists_leaf_of_lexemes? (h : lexemes? text = some (found, rest)) (hslash : '/' ∉ text)
    (hfound : ∀ l ∈ found, l.isOfNames = true) :
    ∃ t, found = [.leaf t] ∧ leaf? text = some (t, rest) := by
  cases text with
  | nil => cases h
  | cons c text =>
    have hbracket : c ∉ ['(', '[', '\x7b', ')', ']', '\x7d'] := by
      intro hc
      obtain ⟨l, hl, hnot⟩ := not_isOfNames_of_bracket hc h
      rw [hfound l hl] at hnot
      cases hnot
    have hc : c ∉ ['/', '(', '[', '\x7b', ')', ']', '\x7d'] := by
      rw [List.mem_cons, not_or]
      refine ⟨?_, hbracket⟩
      rintro rfl
      exact hslash List.mem_cons_self
    rw [lexemes?_of_leaf hc] at h
    obtain ⟨⟨t, after⟩, hleaf, h⟩ := Option.map_eq_some_iff.mp h
    cases h
    exact ⟨t, rfl, hleaf⟩

/-- Before pieces of names a word ends, unless they go on with a character of it. -/
theorem endsWord_of_isOfNames {ps : List Piece} (hps : ∀ p ∈ ps, p.isOfNames = true)
    (hstop : ∀ c ∈ (textOf ps).head?, continuesIdent c = false) : endsWord ps = true := by
  cases ps with
  | nil => rfl
  | cons p ps =>
    have hp := hps p List.mem_cons_self
    cases p with
    | blank c => rfl
    | punct c =>
      rw [endsWord_punct, beq_iff_eq.mp hp]
      rfl
    | ident i =>
      obtain ⟨c, after, heq, hc⟩ := exists_first i (textOf ps)
      have hnot := hstop c (by rw [textOf_cons, Piece.text, heq]; rfl)
      rw [continuesIdent_of_opensIdent hc] at hnot
      cases hnot
    | _ => cases hp

/-- A text without slashes that is cut into names and colons is made of pieces of names. -/
theorem exists_pieces_of_go {ls : List Lexeme} (fuel : Nat) (h : cut.go fuel text = some ls)
    (hslash : '/' ∉ text) (hls : ∀ l ∈ ls, l.isOfNames = true) :
    ∃ ps, textOf ps = text ∧ isApart ps = true ∧ lexemesOf ps = ls ∧
      ∀ p ∈ ps, p.isOfNames = true := by
  -- By the rounds of the lexer: a round that does not fail has taken a blank, a name or a colon off
  -- the text, which is one piece.
  induction fuel generalizing text ls with
  | zero => cases h
  | succ fuel ih =>
    cases text with
    | nil =>
      cases h
      exact ⟨[], rfl, rfl, rfl, fun p hp => absurd hp List.not_mem_nil⟩
    | cons c text =>
      have hc : c ≠ '/' := fun hc => hslash (hc ▸ List.mem_cons_self)
      cases hblank : isBlank c with
      | true =>
        rw [cut.go, afterBlank?_blank hblank] at h
        · obtain ⟨ps, rfl, hapart, hlexemes, hps⟩ :=
            ih h (fun hmem => hslash (List.mem_cons_of_mem _ hmem)) hls
          refine ⟨.blank c :: ps, rfl, ?_, hlexemes, List.forall_mem_cons.mpr ⟨hblank, hps⟩⟩
          rw [isApart, hapart, Bool.and_true]
          exact hblank
        · simp
      | false =>
        rw [cut.go, afterBlank?_of_not_isBlank hc hblank] at h
        · dsimp only at h
          split at h
          · next found rest hfound =>
            obtain ⟨ls', hrest, rfl⟩ := Option.map_eq_some_iff.mp h
            rw [List.forall_mem_append] at hls
            obtain ⟨t, rfl, hleaf⟩ := exists_leaf_of_lexemes? hfound hslash hls.1
            rcases exists_piece_of_leaf? hleaf (hls.1 _ (List.mem_singleton_self _)) with
              ⟨i, rfl, htext, hstop⟩ | ⟨rfl, htext⟩
            · rw [htext] at hslash ⊢
              obtain ⟨ps, rfl, hapart, hlexemes, hps⟩ :=
                ih hrest (fun hmem => hslash (List.mem_append_right _ hmem)) hls.2
              refine ⟨.ident i :: ps, rfl, ?_, by rw [lexemesOf, hlexemes]; rfl,
                List.forall_mem_cons.mpr ⟨rfl, hps⟩⟩
              rw [isApart, hapart, Bool.and_true]
              exact endsWord_of_isOfNames hps hstop
            · rw [htext] at hslash ⊢
              obtain ⟨ps, rfl, hapart, hlexemes, hps⟩ :=
                ih hrest (fun hmem => hslash (List.mem_cons_of_mem _ hmem)) hls.2
              refine ⟨.punct ':' :: ps, rfl, ?_, ?_, List.forall_mem_cons.mpr ⟨rfl, hps⟩⟩
              · rw [isApart, hapart]
                rfl
              · rw [lexemesOf, hlexemes, opensPunct_textOf hapart]
                rfl
          · cases h
        · simp

/-! ## 3. Tokens -/

/-- Where no group comes out of pairing brackets, there were none: every lexeme was a token. -/
theorem eq_of_nest {ts current : List Token} {outer : List (Delimiter × List Token)}
    {ls : List Lexeme} (h : nest current outer ls = some ts)
    (hgroups : ∀ d inner, .group d inner ∉ ts) :
    outer = [] ∧ (∀ d inner, .group d inner ∉ current) ∧
      ∃ us, ts = current.reverse ++ us ∧ ls = us.map .leaf := by
  -- By the lexemes that are left. An opening bracket would leave a level open or come out as a
  -- group.
  induction ls generalizing current outer with
  | nil =>
    rw [nest] at h
    split at h
    · next hempty =>
      cases h
      refine ⟨List.isEmpty_iff.mp hempty, fun d inner hmem => ?_, [], by rw [List.append_nil], rfl⟩
      exact hgroups d inner (List.mem_reverse.mpr hmem)
    · cases h
  | cons l ls ih =>
    cases l with
    | leaf t =>
      obtain ⟨rfl, hcurrent, us, hts, rfl⟩ := ih h
      refine ⟨rfl, fun d inner hmem => hcurrent d inner (List.mem_cons_of_mem _ hmem), t :: us, ?_,
        rfl⟩
      rw [hts, List.reverse_cons, List.append_assoc]
      rfl
    | opening d =>
      obtain ⟨houter, -⟩ := ih h
      cases houter
    | closing d =>
      cases outer with
      | nil => cases h
      | cons around outer =>
        rw [nest] at h
        split at h
        · obtain ⟨-, hcurrent, -⟩ := ih h
          exact absurd List.mem_cons_self (hcurrent d current.reverse)
        · cases h

/-- Whether the token is a name or a colon. -/
def isOfNames (t : Token) : Bool := (Lexeme.leaf t).isOfNames

/-- A text of names without slashes is made of pieces of names. -/
theorem exists_pieces {text : String} {ts : List Token} (h : tokens? text = some ts)
    (hts : ∀ t ∈ ts, isOfNames t = true) (hslash : '/' ∉ text.toList)
    (hmark : ∀ c ∈ text.toList.head?, c ≠ '\ufeff') :
    ∃ ps, textOf ps = text.toList ∧ isApart ps = true ∧ lexemesOf ps = ts.map .leaf := by
  have hdrop : dropByteOrderMark text.toList = text.toList := by
    cases htext : text.toList with
    | nil => rfl
    | cons c cs => exact dropByteOrderMark_of_ne (hmark c (by rw [htext]; rfl)) cs
  unfold tokens? at h
  rw [hdrop] at h
  obtain ⟨ls, hcut, hnest⟩ := Option.bind_eq_some_iff.mp h
  have hgroups : ∀ d inner, .group d inner ∉ ts := fun d inner hmem => by cases hts _ hmem
  obtain ⟨-, -, us, hus, rfl⟩ := eq_of_nest hnest hgroups
  rw [List.reverse_nil, List.nil_append] at hus
  subst hus
  obtain ⟨ps, htext, hapart, hlexemes, -⟩ := exists_pieces_of_go _ hcut hslash fun l hl => by
    obtain ⟨t, ht, rfl⟩ := List.mem_map.mp hl
    exact hts t ht
  exact ⟨ps, htext, hapart, hlexemes⟩

/-! ## 4. Between brackets -/

section

variable (ps qs : List Piece) (d : Delimiter)

/-- A closing bracket ends whatever the end of a text ends. -/
theorem fits_append_closing (p : Piece) : p.fits (ps ++ .closing d :: qs) = p.fits ps := by
  cases ps with
  | nil => cases p <;> rfl
  | cons p' ps => cases p' <;> cases p <;> rfl

theorem lexemes_append_closing (p : Piece) :
    p.lexemes (ps ++ .closing d :: qs) = p.lexemes ps := by
  cases ps with
  | nil => cases p <;> rfl
  | cons p' ps => cases p' <;> cases p <;> rfl

theorem isApart_append_closing :
    isApart (ps ++ .closing d :: qs) = (isApart ps && isApart qs) := by
  induction ps with
  | nil => rfl
  | cons p ps ih =>
    rw [List.cons_append, isApart, isApart, ih, fits_append_closing, Bool.and_assoc]

theorem lexemesOf_append_closing :
    lexemesOf (ps ++ .closing d :: qs) = lexemesOf ps ++ .closing d :: lexemesOf qs := by
  induction ps with
  | nil => rfl
  | cons p ps ih =>
    rw [List.cons_append, lexemesOf, lexemesOf, ih, lexemes_append_closing, List.append_assoc]

end

theorem flatAll_of_isOfNames {ts : List Token} (hts : ∀ t ∈ ts, isOfNames t = true) :
    flatAll ts = ts.map .leaf := by
  induction ts with
  | nil => rfl
  | cons t ts ih =>
    rw [List.forall_mem_cons] at hts
    rw [flatAll, ih hts.2]
    cases t with
    | group d inner => cases hts.1
    | _ => rfl

end EnumCatalog.Lexer
