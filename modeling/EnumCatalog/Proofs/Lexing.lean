import EnumCatalog.Proofs.Escaping

/-!
# Tokens at the front of a text

What the lexer cuts off a text that starts with a token, for each kind of token, whatever follows
that the token does not run into. A word ends before whatever is no character of a word; apart from
that no quote or number sign may follow, which would make the word the start of a literal
(`EndsWord`).
-/

set_option autoImplicit false

namespace EnumCatalog.Lexer

open Text

variable {c : Char} {text rest : List Char} {i : Ident}

/-! ## 1. Kinds of characters -/

/-- The code points of blank characters. -/
def blankPoints : List Nat := [0x09, 0x0A, 0x0B, 0x0C, 0x0D, 0x20, 0x85, 0xA0, 0x1680, 0x2000, 0x2001,
  0x2002, 0x2003, 0x2004, 0x2005, 0x2006, 0x2007, 0x2008, 0x2009, 0x200A, 0x200E, 0x200F, 0x2028,
  0x2029, 0x202F, 0x205F, 0x3000]

theorem mem_blankPoints (h : isBlank c = true) : c.toNat ∈ blankPoints := by
  simp only [isBlank, Bool.or_eq_true, Bool.and_eq_true, beq_iff_eq, decide_eq_true_eq] at h
  simp only [blankPoints, List.mem_cons, List.not_mem_nil, or_false]
  omega

theorem not_continuesIdent_of_isBlank (h : isBlank c = true) : continuesIdent c = false := by
  have hall : ∀ n ∈ blankPoints, continuesIdent (Char.ofNat n) = false := by decide +kernel
  have hc := hall c.toNat (mem_blankPoints h)
  rwa [Char.ofNat_toNat] at hc

theorem not_isPunct_of_isBlank (h : isBlank c = true) : isPunct c = false := by
  have hall : ∀ n ∈ blankPoints, isPunct (Char.ofNat n) = false := by decide
  have hc := hall c.toNat (mem_blankPoints h)
  rwa [Char.ofNat_toNat] at hc

theorem not_isBlank_of_opensIdent (h : opensIdent c = true) : isBlank c = false := by
  cases hc : isBlank c with
  | false => rfl
  | true =>
    have hnot := not_continuesIdent_of_isBlank hc
    rw [continuesIdent_of_opensIdent h] at hnot
    cases hnot

theorem forall_eq_false {p : Char → Bool} {cs : List Char} (h : cs.any p = false) :
    ∀ d ∈ cs, p d = false := fun d hd => Bool.eq_false_iff.mpr (List.any_eq_false.mp h d hd)

/-- What is no character of an identifier differs from every one that is. -/
theorem ne_of_opensIdent {d : Char} (h : opensIdent c = true) (hd : opensIdent d = false) :
    c ≠ d := by
  rintro rfl
  rw [h] at hd
  cases hd

theorem ne_of_continuesIdent {d : Char} (h : continuesIdent c = true)
    (hd : continuesIdent d = false) : c ≠ d := by
  rintro rfl
  rw [h] at hd
  cases hd

theorem not_isPunct_of_opensIdent (h : opensIdent c = true) : isPunct c = false := by
  have hall : ∀ d ∈ ['~', '!', '@', '#', '$', '%', '^', '&', '*', '-', '=', '+', '|', ';', ':', ',',
      '<', '.', '>', '/', '?', '\''], opensIdent d = false := forall_eq_false rfl
  cases hc : isPunct c with
  | false => rfl
  | true =>
    have hd := hall c (List.contains_iff_mem.mp hc)
    rw [h] at hd
    cases hd

theorem not_isDigit_of_opensIdent (h : opensIdent c = true) : c.isDigit = false := by
  cases hc : c.isDigit with
  | false => rfl
  | true =>
    have hnum : 48 ≤ c.toNat ∧ c.toNat ≤ 57 := by
      simp only [Char.isDigit, ge_iff_le, Bool.and_eq_true, decide_eq_true_eq,
        UInt32.le_iff_toNat_le] at hc
      exact hc
    have hall : ∀ n, n < 58 → 48 ≤ n → opensIdent (Char.ofNat n) = false := by decide
    have hd := hall c.toNat (by omega) hnum.1
    rw [Char.ofNat_toNat, h] at hd
    cases hd

/-! ## 2. What a first character rules out -/

theorem afterBlank?_of_not_isBlank (hslash : c ≠ '/') (hblank : isBlank c = false)
    (text : List Char) : afterBlank? (c :: text) = none := by
  have hline : opensLineComment (c :: text) = false := by
    unfold opensLineComment
    split <;> simp_all
  have hblock : opensBlockComment (c :: text) = false := by
    unfold opensBlockComment
    split <;> simp_all
  simp [afterBlank?, hline, hblock, hblank]

theorem lexemes?_of_leaf (h : c ∉ ['/', '(', '[', '\x7b', ')', ']', '\x7d']) (text : List Char) :
    lexemes? (c :: text) = (leaf? (c :: text)).map fun (t, rest) => ([.leaf t], rest) := by
  simp only [List.mem_cons, List.not_mem_nil, or_false, not_or] at h
  have hdoc : docComment? (c :: text) = none := by
    unfold docComment?
    split <;> simp_all
  have hplaceholder : errorPlaceholder.toList.isPrefixOf (c :: text) = false := by
    show List.isPrefixOf ('(' :: _) (c :: text) = false
    simp [List.isPrefixOf, Ne.symm h.2.1]
  unfold lexemes?
  rw [hdoc, hplaceholder]
  simp only [Bool.false_eq_true, if_false]
  split <;> simp_all

/-! ## 3. Words -/

/-- Neither a quote nor a number sign comes next, so what came before opens no literal. -/
def Quiet (text : List Char) : Prop := ∀ c ∈ text.head?, c ∉ ['"', '\'', '#']

/-- A word ends before this text. -/
def EndsWord (text : List Char) : Prop := Quiet text ∧ ∀ c ∈ text.head?, continuesIdent c = false

theorem quiet_append {cs : List Char} (hcs : ∀ c ∈ cs, continuesIdent c = true)
    (hrest : EndsWord rest) : Quiet (cs ++ rest) := by
  cases cs with
  | nil => exact hrest.1
  | cons c cs =>
    intro d hd hmem
    cases hd
    have hnot : ∀ d ∈ ['"', '\'', '#'], continuesIdent d = false := forall_eq_false rfl
    exact ne_of_continuesIdent (hcs c List.mem_cons_self) (hnot c hmem) rfl

/-- The letter `r` in front of a quote would open a raw text, here it only goes on. -/
theorem quiet_of_append_eq_cons {cs : List Char} (hcs : ∀ c ∈ cs, continuesIdent c = true)
    (hrest : EndsWord rest) (h : cs ++ rest = 'r' :: text) : Quiet text := by
  cases cs with
  | nil =>
    rw [List.nil_append] at h
    have hr := hrest.2 'r' (by rw [h]; rfl)
    cases hr
  | cons c cs =>
    cases h
    exact quiet_append (fun d hd => hcs d (List.mem_cons_of_mem _ hd)) hrest

theorem Quiet.not_isPrefixOf {d : Char} (h : Quiet text) (hd : d ∈ ['"', '\'', '#'])
    (cs : List Char) : List.isPrefixOf (d :: cs) text = false := by
  cases text with
  | nil => rfl
  | cons c text =>
    have hne : (d == c) = false := by
      refine beq_false_of_ne ?_
      rintro rfl
      exact h d rfl hd
    simp [List.isPrefixOf, hne]

theorem Quiet.afterRawOpening (h : Quiet text) (plain : Char → Bool) :
    afterRawOpening plain text = none := by
  cases text with
  | nil => rfl
  | cons c text =>
    have hc := h c rfl
    simp only [List.mem_cons, List.not_mem_nil, or_false, not_or] at hc
    have hsign : (c == '#') = false := beq_false_of_ne hc.2.2
    unfold Lexer.afterRawOpening
    simp only [List.takeWhile_cons, hsign, Bool.false_eq_true, if_false, List.length_nil,
      List.drop_zero]
    split
    · next heq =>
      cases heq
      exact absurd rfl hc.1
    · rfl

/-- The texts that a word with what follows it cannot be taken for. -/
structure IsWordStart (c : Char) (text : List Char) : Prop where
  opens : opensIdent c = true
  quiet : Quiet text
  quietAfter : ∀ after, text = 'r' :: after → Quiet after

theorem IsWordStart.afterQuotedLiteral (h : IsWordStart c text) :
    afterQuotedLiteral (c :: text) = none := by
  have hquote : c ≠ '"' := ne_of_opensIdent h.opens (by decide)
  have htick : c ≠ '\'' := ne_of_opensIdent h.opens (by decide)
  unfold Lexer.afterQuotedLiteral
  -- The openings of quoted literals: in each the word would be followed by a quote or a number
  -- sign.
  split
  · next heq => exact absurd (List.cons.inj heq).1 hquote
  · next heq =>
    obtain ⟨-, rfl⟩ := List.cons.inj heq
    exact absurd (by simp) (h.quiet '"' rfl)
  · next heq =>
    obtain ⟨-, hr⟩ := List.cons.inj heq
    exact (h.quietAfter _ hr).afterRawOpening _
  · next heq =>
    obtain ⟨-, rfl⟩ := List.cons.inj heq
    exact absurd (by simp) (h.quiet '\'' rfl)
  · next heq =>
    obtain ⟨-, rfl⟩ := List.cons.inj heq
    exact absurd (by simp) (h.quiet '"' rfl)
  · next heq =>
    obtain ⟨-, hr⟩ := List.cons.inj heq
    exact (h.quietAfter _ hr).afterRawOpening _
  · next heq =>
    obtain ⟨-, rfl⟩ := List.cons.inj heq
    exact h.quiet.afterRawOpening _
  · next heq => exact absurd (List.cons.inj heq).1 htick
  · rfl

theorem IsWordStart.not_isPrefixOf_literalOpenings (h : IsWordStart c text) :
    (literalOpenings.any fun s => s.toList.isPrefixOf (c :: text)) = false := by
  have hnext : ∀ d ∈ ['"', '\'', '#'], ∀ cs, List.isPrefixOf (d :: cs) text = false :=
    fun d hd cs => h.quiet.not_isPrefixOf hd cs
  have hafter : ∀ d ∈ ['"', '\'', '#'], List.isPrefixOf ['r', d] text = false := by
    intro d hd
    cases text with
    | nil => rfl
    | cons e text =>
      by_cases he : e = 'r'
      · subst he
        exact (h.quietAfter text rfl).not_isPrefixOf hd []
      · simp [List.isPrefixOf, Ne.symm he]
  show ('r' == c && List.isPrefixOf ['"'] text || ('r' == c && List.isPrefixOf ['#', '"'] text ||
    ('r' == c && List.isPrefixOf ['#', '#'] text || ('b' == c && List.isPrefixOf ['"'] text ||
    ('b' == c && List.isPrefixOf ['\''] text || ('b' == c && List.isPrefixOf ['r', '"'] text ||
    ('b' == c && List.isPrefixOf ['r', '#'] text || ('c' == c && List.isPrefixOf ['"'] text ||
    ('c' == c && List.isPrefixOf ['r', '"'] text ||
    ('c' == c && List.isPrefixOf ['r', '#'] text || false)))))))))) = false
  rw [hnext '"' (by decide), hnext '#' (by decide), hnext '#' (by decide), hnext '\'' (by decide),
    hafter '"' (by decide), hafter '#' (by decide)]
  simp

theorem isWordStart_append {cs : List Char} (hc : opensIdent c = true)
    (hcs : ∀ d ∈ cs, continuesIdent d = true) (hrest : EndsWord rest) :
    IsWordStart c (cs ++ rest) :=
  ⟨hc, quiet_append hcs hrest, fun _ => quiet_of_append_eq_cons hcs hrest⟩

/-- What remains of a word before what follows it. -/
theorem name?_append {cs : List Char} (hc : opensIdent c = true)
    (hcs : ∀ d ∈ cs, continuesIdent d = true) (hrest : EndsWord rest) :
    name? (c :: cs ++ rest) = some (c :: cs, rest) := by
  have hstop : rest.takeWhile continuesIdent = [] ∧ rest.dropWhile continuesIdent = rest := by
    cases rest with
    | nil => exact ⟨rfl, rfl⟩
    | cons d rest =>
      have hd := hrest.2 d rfl
      simp [hd]
  show (if opensIdent c then some (c :: (cs ++ rest).takeWhile continuesIdent,
    (cs ++ rest).dropWhile continuesIdent) else none) = _
  rw [if_pos hc, List.takeWhile_append_of_pos hcs, List.dropWhile_append_of_pos hcs, hstop.1,
    hstop.2, List.append_nil]

theorem exists_name (i : Ident) : ∃ c cs, i.name.toList = c :: cs ∧ opensIdent c = true ∧
    ∀ d ∈ cs, continuesIdent d = true := by
  have h := i.isText
  cases hname : i.name.toList with
  | nil => rw [hname] at h; cases h
  | cons c cs =>
    rw [hname, isIdentText, Bool.and_eq_true, List.all_eq_true] at h
    exact ⟨c, cs, rfl, h.1, h.2⟩

theorem ident_ext {i j : Ident} (hraw : i.raw = j.raw) (hname : i.name = j.name) : i = j := by
  cases i
  cases j
  cases hraw
  cases hname
  rfl

theorem anyIdent?_of_raw {name : List Char} (hraw : i.raw = true)
    (hname : String.ofList name = i.name) (h : name? text = some (name, rest)) :
    anyIdent? ('r' :: '#' :: text) = some (i, rest) := by
  unfold anyIdent?
  split
  · next text' heq =>
    cases heq
    split
    · next name' rest' h' =>
      rw [h] at h'
      cases h'
      have hnever : neverRaw.contains (String.ofList name) = false := by
        have hcan := i.canBeRaw
        rwa [hraw, Bool.true_and, ← hname] at hcan
      rw [dif_neg (by simp only [hnever, Bool.false_eq_true, not_false_eq_true])]
      exact congrArg some (Prod.ext (ident_ext hraw.symm hname) rfl)
    · next h' =>
      rw [h] at h'
      cases h'
  · next hne => exact absurd rfl (hne text)

theorem anyIdent?_of_plain {name : List Char} (hraw : i.raw = false)
    (hname : String.ofList name = i.name) (hmark : ∀ after, text ≠ 'r' :: '#' :: after)
    (h : name? text = some (name, rest)) : anyIdent? text = some (i, rest) := by
  unfold anyIdent?
  split
  · next after => exact absurd rfl (hmark after)
  · split
    · next name' rest' h' =>
      rw [h] at h'
      cases h'
      exact congrArg some (Prod.ext (ident_ext hraw.symm hname) rfl)
    · next h' =>
      rw [h] at h'
      cases h'

theorem text_of_raw {c : Char} {cs : List Char} (hraw : i.raw = true)
    (hname : i.name.toList = c :: cs) : i.text.toList ++ rest = 'r' :: '#' :: (c :: cs ++ rest) := by
  rw [Ident.text, hraw, if_pos rfl, String.toList_append, hname]
  rfl

theorem text_of_plain {c : Char} {cs : List Char} (hraw : i.raw = false)
    (hname : i.name.toList = c :: cs) : i.text.toList ++ rest = c :: (cs ++ rest) := by
  rw [Ident.text, hraw, if_neg (by decide), hname]
  rfl

theorem anyIdent?_append (i : Ident) (hrest : EndsWord rest) :
    anyIdent? (i.text.toList ++ rest) = some (i, rest) := by
  obtain ⟨c, cs, hname, hc, hcs⟩ := exists_name i
  have hread := name?_append hc hcs hrest
  have hofList : String.ofList (c :: cs) = i.name := by rw [← hname, String.ofList_toList]
  cases hraw : i.raw with
  | true =>
    rw [text_of_raw hraw hname]
    exact anyIdent?_of_raw hraw hofList hread
  | false =>
    rw [text_of_plain hraw hname]
    refine anyIdent?_of_plain hraw hofList (fun after heq => ?_) hread
    have hquiet := quiet_append hcs hrest
    rw [(List.cons.inj heq).2] at hquiet
    exact hquiet '#' rfl (by decide)

/-- A word is no literal, whether it is raw or not. -/
theorem afterLiteral_word (i : Ident) (hrest : EndsWord rest) :
    afterLiteral (i.text.toList ++ rest) = none := by
  obtain ⟨c, cs, hname, hc, hcs⟩ := exists_name i
  unfold afterLiteral
  cases hraw : i.raw with
  | true =>
    have hquote : c ≠ '"' := ne_of_opensIdent hc (by decide)
    have hsign : (c == '#') = false := beq_false_of_ne (ne_of_opensIdent hc (by decide))
    have hopening : afterRawOpening textRule.plain ('#' :: (c :: cs ++ rest)) = none := by
      simp only [afterRawOpening, List.cons_append, List.takeWhile_cons, hsign, beq_self_eq_true,
        if_true, Bool.false_eq_true, if_false, List.length_singleton, List.drop_succ_cons,
        List.drop_zero]
      split
      · next heq => exact absurd (List.cons.inj heq).1 hquote
      · rfl
    rw [text_of_raw hraw hname]
    rw [show afterQuotedLiteral ('r' :: '#' :: (c :: cs ++ rest)) = none from hopening]
    rfl
  | false =>
    rw [text_of_plain hraw hname, (isWordStart_append hc hcs hrest).afterQuotedLiteral]
    simp [afterNumber, not_isDigit_of_opensIdent hc]

theorem ident?_word (i : Ident) (hrest : EndsWord rest) :
    ident? (i.text.toList ++ rest) = some (i, rest) := by
  obtain ⟨c, cs, hname, hc, hcs⟩ := exists_name i
  unfold ident?
  rw [if_neg, anyIdent?_append i hrest]
  rw [Bool.not_eq_true]
  cases hraw : i.raw with
  | true =>
    have hne : ∀ d ∈ ['"', '#'], (d == c) = false := by
      intro d hd
      have hnot : ∀ d ∈ ['"', '#'], opensIdent d = false := forall_eq_false rfl
      exact beq_false_of_ne (ne_of_opensIdent hc (hnot d hd)).symm
    rw [text_of_raw hraw hname]
    show (false || ('"' == c && _ || ('#' == c && _ || (false || (false || (false || (false ||
      (false || (false || (false || false)))))))))) = false
    rw [hne '"' (by decide), hne '#' (by decide)]
    rfl
  | false =>
    rw [text_of_plain hraw hname]
    exact (isWordStart_append hc hcs hrest).not_isPrefixOf_literalOpenings

/-- The first character of a word, which the tests for other tokens look at. -/
theorem exists_first (i : Ident) (rest : List Char) :
    ∃ c text, i.text.toList ++ rest = c :: text ∧ opensIdent c = true := by
  obtain ⟨c, cs, hname, hc, -⟩ := exists_name i
  cases hraw : i.raw with
  | true => exact ⟨'r', _, text_of_raw hraw hname, by decide⟩
  | false => exact ⟨c, _, text_of_plain hraw hname, hc⟩

/-- A word is cut off as a whole. -/
theorem leaf?_word (i : Ident) (hrest : EndsWord rest) :
    leaf? (i.text.toList ++ rest) = some (.ident i, rest) := by
  have hpunct : punct? (i.text.toList ++ rest) = none := by
    obtain ⟨c, text, heq, hc⟩ := exists_first i rest
    have hslash : c ≠ '/' := ne_of_opensIdent hc (by decide)
    have hopens : opensPunct (c :: text) = false := by
      unfold opensPunct
      split
      · rfl
      · rfl
      · next h =>
        cases h
        exact not_isPunct_of_opensIdent hc
      · rfl
    rw [heq]
    simp [punct?, hopens]
  unfold leaf?
  rw [afterLiteral_word i hrest, hpunct, ident?_word i hrest]
  rfl

theorem lexemes?_word (i : Ident) (hrest : EndsWord rest) :
    lexemes? (i.text.toList ++ rest) = some ([.leaf (.ident i)], rest) := by
  have hleaf := leaf?_word i hrest
  obtain ⟨c, text, heq, hc⟩ := exists_first i rest
  rw [heq] at hleaf ⊢
  have hne : c ∉ ['/', '(', '[', '\x7b', ')', ']', '\x7d'] := by
    intro hmem
    have hnot : ∀ d ∈ ['/', '(', '[', '\x7b', ')', ']', '\x7d'], opensIdent d = false :=
      forall_eq_false rfl
    exact ne_of_opensIdent hc (hnot c hmem) rfl
  rw [lexemes?_of_leaf hne, hleaf]
  rfl

theorem afterBlank?_word (i : Ident) (rest : List Char) :
    afterBlank? (i.text.toList ++ rest) = none := by
  obtain ⟨c, text, heq, hc⟩ := exists_first i rest
  rw [heq]
  exact afterBlank?_of_not_isBlank (ne_of_opensIdent hc (by decide)) (not_isBlank_of_opensIdent hc) _

/-! ## 4. Other tokens -/

/-- No other quote follows the first character of a name, so a quote before it opens no character. -/
theorem leaf?_lifetime (i : Ident) (hrest : EndsWord rest) :
    leaf? ('\'' :: (i.text.toList ++ rest)) = some (.lifetime i, rest) := by
  -- A character would have its second quote after one character, where the name goes on or ends.
  have hcharacter : afterCharacter textRule (i.text.toList ++ rest) = none := by
    obtain ⟨c, cs, hname, hc, hcs⟩ := exists_name i
    have hslash : c ≠ '\\' := ne_of_opensIdent hc (by decide)
    cases hraw : i.raw with
    | true =>
      rw [text_of_raw hraw hname]
      rfl
    | false =>
      have hnot : ∀ after, cs ++ rest ≠ '\'' :: after := by
        intro after heq
        have hquiet := quiet_append hcs hrest
        rw [heq] at hquiet
        exact hquiet '\'' rfl (by decide)
      rw [text_of_plain hraw hname]
      generalize cs ++ rest = t at hnot
      unfold afterCharacter
      split
      · next heq => exact absurd (List.cons.inj heq).1 hslash
      · next heq =>
        cases heq
        simp only [textRule, if_true]
        split
        · next heq =>
          cases heq
          exact absurd rfl (hnot _)
        · rfl
      · next heq => cases heq
  have hlifetime : lifetime? (i.text.toList ++ rest) = some (i, rest) := by
    unfold lifetime?
    rw [anyIdent?_append i hrest]
    simp only
    split
    · exact absurd (by simp) (hrest.1 '\'' rfl)
    · exact absurd (by simp) (hrest.1 '#' rfl)
    · rfl
  have hliteral : afterLiteral ('\'' :: (i.text.toList ++ rest)) = none := by
    unfold afterLiteral
    rw [show afterQuotedLiteral ('\'' :: (i.text.toList ++ rest)) = _ from hcharacter]
    rfl
  have hpunct : punct? ('\'' :: (i.text.toList ++ rest)) = some (.lifetime i, rest) := by
    show (lifetime? (i.text.toList ++ rest)).map _ = _
    rw [hlifetime]
    rfl
  unfold leaf?
  rw [hliteral]
  simp only [hpunct]

theorem forall_isPunct {P : Char → Bool} (h : (['~', '!', '@', '#', '$', '%', '^', '&', '*', '-',
    '=', '+', '|', ';', ':', ',', '<', '.', '>', '/', '?', '\''].all P) = true)
    (hc : isPunct c = true) : P c = true :=
  List.all_eq_true.mp h c (List.contains_iff_mem.mp hc)

theorem leaf?_punct (hc : isPunct c = true) (hslash : c ≠ '/') (hquote : c ≠ '\'')
    (text : List Char) : leaf? (c :: text) = some (.punct c (opensPunct text), text) := by
  have hplain : c ≠ '"' ∧ c ≠ 'b' ∧ c ≠ 'c' ∧ c ≠ 'r' ∧ c.isDigit = false := by
    have h := forall_isPunct (P := fun c => c != '"' && c != 'b' && c != 'c' && c != 'r' &&
      !c.isDigit) (by decide) hc
    simpa [and_assoc] using h
  have hliteral : afterLiteral (c :: text) = none := by
    have hquoted : afterQuotedLiteral (c :: text) = none := by
      unfold afterQuotedLiteral
      split <;> simp_all
    unfold afterLiteral
    rw [hquoted]
    simp [afterNumber, hplain.2.2.2.2]
  have hopens : opensPunct (c :: text) = true := by
    unfold opensPunct
    split <;> simp_all
  have hpunct : punct? (c :: text) = some (.punct c (opensPunct text), text) := by
    unfold punct?
    rw [hopens]
    simp only [if_true]
  unfold leaf?
  rw [hliteral, hpunct]

theorem leaf?_quoted (v : String) (hrest : EndsWord rest) :
    leaf? ((quoted v).toList ++ rest) = some (.literal (quoted v), rest) := by
  have htext : (quoted v).toList ++ rest = '"' :: (literalChars v.toList ++ '"' :: rest) := by
    simp [quoted]
  have hsuffix : afterSuffix rest = rest := by
    unfold afterSuffix
    cases rest with
    | nil => rfl
    | cons c rest =>
      have hc : opensIdent c = false := by
        cases h : opensIdent c with
        | false => rfl
        | true =>
          have hnot := hrest.2 c rfl
          rw [continuesIdent_of_opensIdent h] at hnot
          cases hnot
      simp [name?, hc]
  have hliteral : afterLiteral ((quoted v).toList ++ rest) = some rest := by
    rw [htext]
    unfold afterLiteral
    rw [show afterQuotedLiteral ('"' :: (literalChars v.toList ++ '"' :: rest)) = some rest from
      afterQuoted_literalChars v.toList]
    simp only [hsuffix]
  unfold leaf?
  rw [hliteral]
  simp only [List.length_append, Nat.add_sub_cancel, List.take_left, String.ofList_toList]

/-! ## 5. Lines -/

theorem splitLine_append {line : List Char} (hline : '\n' ∉ line) (rest : List Char) :
    (splitLine (line ++ '\n' :: rest)).2 = '\n' :: rest := by
  induction line with
  | nil => rfl
  | cons c line ih =>
    have hc : c ≠ '\n' := fun h => hline (h ▸ List.mem_cons_self)
    have htail := ih fun h => hline (List.mem_cons_of_mem _ h)
    rw [List.cons_append]
    unfold splitLine
    split
    · next heq => cases heq
    · next heq => exact absurd (List.cons.inj heq).1 hc
    · next heq =>
      -- A carriage return at the end of the line belongs to the end.
      cases line with
      | nil =>
        cases heq
        rfl
      | cons d line =>
        cases heq
        exact absurd (List.mem_cons_of_mem _ List.mem_cons_self) hline
    · next heq =>
      cases heq
      exact htail

theorem splitLine_append_fst {line : List Char} (hline : '\n' ∉ line) (hcr : '\r' ∉ line)
    (rest : List Char) : (splitLine (line ++ '\n' :: rest)).1 = line := by
  induction line with
  | nil => rfl
  | cons c line ih =>
    have hc : c ≠ '\n' := fun h => hline (h ▸ List.mem_cons_self)
    have hc' : c ≠ '\r' := fun h => hcr (h ▸ List.mem_cons_self)
    have htail := ih (fun h => hline (List.mem_cons_of_mem _ h))
      (fun h => hcr (List.mem_cons_of_mem _ h))
    rw [List.cons_append]
    unfold splitLine
    split
    · next heq => cases heq
    · next heq => exact absurd (List.cons.inj heq).1 hc
    · next heq => exact absurd (List.cons.inj heq).1 hc'
    · next heq =>
      cases heq
      rw [htail]

theorem afterBlank?_comment {line : List Char} (hline : '\n' ∉ line)
    (hfirst : ∀ c ∈ line.head?, c ≠ '/' ∧ c ≠ '!') (rest : List Char) :
    afterBlank? ('/' :: '/' :: (line ++ '\n' :: rest)) = some ('\n' :: rest) := by
  have hopens : opensLineComment ('/' :: '/' :: (line ++ '\n' :: rest)) = true := by
    cases line with
    | nil => rfl
    | cons c line =>
      obtain ⟨hslash, hbang⟩ := hfirst c rfl
      unfold opensLineComment
      split <;> simp_all
  have hsplit : (splitLine ('/' :: '/' :: line ++ '\n' :: rest)).2 = '\n' :: rest :=
    splitLine_append (by simpa using hline) rest
  unfold afterBlank?
  rw [hopens]
  exact congrArg some hsplit

theorem crsPaired_of_not_mem {text : List Char} (h : '\r' ∉ text) : crsPaired text = true := by
  induction text with
  | nil => rfl
  | cons c text ih =>
    have hc : c ≠ '\r' := fun heq => h (heq ▸ List.mem_cons_self)
    unfold crsPaired
    split
    · rfl
    · next heq => exact absurd (List.cons.inj heq).1 hc
    · next heq => exact absurd (List.cons.inj heq).1 hc
    · next heq =>
      cases heq
      exact ih fun h' => h (List.mem_cons_of_mem _ h')

/-- A fourth slash would make the line an ordinary comment. -/
theorem append_ne_slash {line : List Char} (hfirst : ∀ c ∈ line.head?, c ≠ '/')
    (rest text : List Char) : line ++ '\n' :: rest ≠ '/' :: text := by
  intro heq
  cases line with
  | nil => cases heq
  | cons c line => exact hfirst c rfl (List.cons.inj heq).1

theorem lexemes?_doc {line : List Char} (hline : '\n' ∉ line) (hcr : '\r' ∉ line)
    (hfirst : ∀ c ∈ line.head?, c ≠ '/') (rest : List Char) :
    lexemes? ('/' :: '/' :: '/' :: (line ++ '\n' :: rest)) =
      some (docLexemes line false, '\n' :: rest) := by
  have hdoc : docComment? ('/' :: '/' :: '/' :: (line ++ '\n' :: rest)) =
      some (line, false, '\n' :: rest) := by
    have hsplit : splitLine (line ++ '\n' :: rest) = (line, '\n' :: rest) :=
      Prod.ext (splitLine_append_fst hline hcr rest) (splitLine_append hline rest)
    rw [docComment?, hsplit]
    exact fun text => append_ne_slash hfirst rest text
  unfold lexemes?
  rw [hdoc]
  simp [crsPaired_of_not_mem hcr]

theorem afterBlank?_doc {line : List Char} (hfirst : ∀ c ∈ line.head?, c ≠ '/')
    (rest : List Char) : afterBlank? ('/' :: '/' :: '/' :: (line ++ '\n' :: rest)) = none := by
  have hopens : opensLineComment ('/' :: '/' :: '/' :: (line ++ '\n' :: rest)) = false := by
    rw [opensLineComment]
    exact fun text => append_ne_slash hfirst rest text
  unfold afterBlank?
  rw [hopens]
  rfl

end EnumCatalog.Lexer
