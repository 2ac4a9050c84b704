import EnumCatalog.Proofs.LineEnd

/-!
# Tokens of a text that ends its last line

What stands at the front of a text that ends with a line feed is the same token in front of any
other text (`leaf?_append`). Numbers and punctuation never look past the end of a line. A literal
whose quote nothing closed would be closed by what follows, but in the shorter text there is no token
in its place: no other token starts with an open quote.
-/

set_option autoImplicit false

namespace EnumCatalog.Lexer

open Text

variable {c d : Char} {text rest : List Char} {plain : Char → Bool}

/-! ## 1. Numbers -/

/-- A scanner that neither looks past the end of a line nor reads it. -/
def WithinLine (scan : List Char → Option (List Char)) : Prop :=
  ∀ ⦃text : List Char⦄, EndsLine text → ∀ tail : List Char,
    scan (text ++ tail) = (scan text).map (· ++ tail) ∧
      ∀ rest, scan text = some rest → EndsLine rest

theorem WithinLine.bind {f g : List Char → Option (List Char)} (hf : WithinLine f)
    (hg : WithinLine g) : WithinLine fun text => (f text).bind g := by
  intro text hends tail
  obtain ⟨hread, hrest⟩ := hf hends tail
  simp only [hread]
  cases hfound : f text with
  | none => exact ⟨rfl, fun rest h => by cases h⟩
  | some after =>
    have hafter := hg (hrest after hfound) tail
    rwa [Option.map_some, Option.bind_some, Option.bind_some]

theorem head?_append_of_endsLine (hends : EndsLine text) (tail : List Char) :
    (text ++ tail).head? = text.head? := by
  obtain ⟨c, text, rfl⟩ := hends.exists_cons
  rfl

/-- What digits before an exponent end in front of, with more behind it. -/
def Mantissa.before (tail : List Char) : Mantissa → Mantissa
  | .fail => .fail
  | .plain hasDot rest => .plain hasDot (rest ++ tail)
  | .exponent hasDot rest => .exponent hasDot (rest ++ tail)

/-- What is left after the digits ends its line, and so does what the letter of an exponent has
behind it. -/
def Mantissa.EndsLine : Mantissa → Prop
  | .fail => True
  | .plain _ rest => Lexer.EndsLine rest
  | .exponent _ rest => Lexer.EndsLine rest ∧ Lexer.EndsLine (rest.drop 1)

theorem mantissa_append (hends : EndsLine text) (hasDot : Bool) (tail : List Char) :
    mantissa hasDot (text ++ tail) = (mantissa hasDot text).before tail ∧
      (mantissa hasDot text).EndsLine := by
  induction text generalizing hasDot with
  | nil => exact absurd hends EndsLine.not_nil
  | cons c text ih =>
    rw [List.cons_append, mantissa, mantissa]
    split
    · next hdigit =>
      exact ih (hends.after (by rintro rfl; simp at hdigit)) hasDot
    · split
      · next hdot =>
        have htext := hends.after (by rintro rfl; simp at hdot)
        rw [head?_append_of_endsLine htext]
        split
        · exact ⟨rfl, hends⟩
        · split
          · exact ⟨rfl, trivial⟩
          · exact ih htext true
      · split
        · next hletter => exact ⟨rfl, hends, hends.after (by rintro rfl; simp at hletter)⟩
        · exact ⟨rfl, hends⟩

theorem withinLine_afterExponent (hasSign hasValue : Bool) :
    WithinLine (afterExponent hasSign hasValue) := by
  intro text hends tail
  -- Character by character. The line's end is none that an exponent may have, so reading stops
  -- before it.
  induction text generalizing hasSign hasValue with
  | nil => exact absurd hends EndsLine.not_nil
  | cons c text ih =>
    have hstop : ∀ rest, (if hasValue then some (c :: text) else none) = some rest →
        EndsLine rest := by
      intro rest h
      split at h
      · cases h
        exact hends
      · cases h
    rw [List.cons_append, afterExponent, afterExponent]
    split
    · next hsign =>
      split
      · exact ⟨rfl, fun rest h => by cases h; exact hends⟩
      · split
        · exact ⟨rfl, fun rest h => by cases h⟩
        · exact ih _ _ (hends.after (by rintro rfl; simp at hsign))
    · split
      · next hdigit => exact ih _ _ (hends.after (by rintro rfl; simp at hdigit))
      · split
        · next hscore => exact ih _ _ (hends.after (by rintro rfl; simp at hscore))
        · refine ⟨?_, hstop⟩
          split <;> rfl

theorem withinLine_afterFraction : WithinLine afterFraction := by
  intro text hends tail
  obtain ⟨hread, hrest⟩ := mantissa_append hends false tail
  unfold afterFraction
  rw [hread]
  cases hfound : mantissa false text with
  | fail => exact ⟨rfl, fun rest h => by cases h⟩
  | plain hasDot rest =>
    rw [hfound] at hrest
    cases hasDot with
    | false => exact ⟨rfl, fun rest h => by cases h⟩
    | true => exact ⟨rfl, fun rest h => by cases h; exact hrest⟩
  | exponent hasDot rest =>
    rw [hfound] at hrest
    obtain ⟨hends, hafter⟩ := hrest
    obtain ⟨hexponent, hstop⟩ := withinLine_afterExponent false false hafter tail
    have hdrop : (rest ++ tail).drop 1 = rest.drop 1 ++ tail := by
      obtain ⟨c, rest, rfl⟩ := hends.exists_cons
      rfl
    simp only [Mantissa.before, hdrop, hexponent]
    cases hvalue : afterExponent false false (rest.drop 1) with
    | some after => exact ⟨rfl, fun rest h => by cases h; exact hstop after hvalue⟩
    | none =>
      cases hasDot with
      | false => exact ⟨rfl, fun rest h => by cases h⟩
      | true => exact ⟨rfl, fun rest h => by cases h; exact hends⟩

theorem withinLine_afterDigits (base : Nat) (isEmpty : Bool) :
    WithinLine (afterDigits base isEmpty) := by
  intro text hends tail
  induction text generalizing isEmpty with
  | nil => exact absurd hends EndsLine.not_nil
  | cons c text ih =>
    rw [List.cons_append, afterDigits, afterDigits]
    split
    · next hdigit =>
      split
      · exact ih _ (hends.after (by rintro rfl; simp at hdigit))
      · exact ⟨rfl, fun rest h => by cases h⟩
    · split
      · next hhex => exact ih _ (hends.after (by rintro rfl; simp [isHex] at hhex))
      · split
        · next hscore =>
          split
          · exact ⟨rfl, fun rest h => by cases h⟩
          · exact ih _ (hends.after (by rintro rfl; simp at hscore))
        · split
          · exact ⟨rfl, fun rest h => by cases h⟩
          · exact ⟨rfl, fun rest h => by cases h; exact hends⟩

theorem withinLine_atWordEnd : WithinLine atWordEnd := by
  intro text hends tail
  unfold atWordEnd
  rw [head?_append_of_endsLine hends]
  split
  · exact ⟨rfl, fun rest h => by cases h⟩
  · exact ⟨rfl, fun rest h => by cases h; exact hends⟩

theorem withinLine_afterInteger : WithinLine afterInteger := by
  intro text hends tail
  obtain ⟨c, text, rfl⟩ := hends.exists_cons
  -- Only after a zero there can be the sign of another base.
  by_cases hc : c = '0'
  · subst hc
    have htext := hends.after (by decide)
    obtain ⟨d, text, rfl⟩ := htext.exists_cons
    by_cases hx : d = 'x'
    · subst hx
      exact withinLine_afterDigits 16 true (htext.after (by decide)) tail
    · by_cases ho : d = 'o'
      · subst ho
        exact withinLine_afterDigits 8 true (htext.after (by decide)) tail
      · by_cases hb : d = 'b'
        · subst hb
          exact withinLine_afterDigits 2 true (htext.after (by decide)) tail
        · have hplain (text : List Char) :
              afterInteger ('0' :: d :: text) = afterDigits 10 true ('0' :: d :: text) := by
            rw [afterInteger]
            all_goals simp [hx, ho, hb]
          rw [List.cons_append, List.cons_append, hplain, hplain]
          exact withinLine_afterDigits 10 true hends tail
  · have hplain (text : List Char) :
        afterInteger (c :: text) = afterDigits 10 true (c :: text) := by
      rw [afterInteger]
      all_goals simp [hc]
    rw [List.cons_append, hplain, hplain]
    exact withinLine_afterDigits 10 true hends tail

theorem withinLine_suffixed : WithinLine fun text => atWordEnd (afterSuffix text) := by
  intro text hends tail
  obtain ⟨hread, hrest⟩ := afterSuffix_append_of_endsLine hends tail
  simp only [hread]
  exact withinLine_atWordEnd hrest tail

theorem withinLine_afterNumber : WithinLine afterNumber := by
  intro text hends tail
  unfold afterNumber
  rw [head?_append_of_endsLine hends]
  split
  · obtain ⟨hread, hrest⟩ := withinLine_afterFraction.bind withinLine_suffixed hends tail
    simp only [hread]
    cases hfound : (afterFraction text).bind fun rest => atWordEnd (afterSuffix rest) with
    | some after => exact ⟨rfl, fun rest h => by cases h; exact hrest after hfound⟩
    | none => exact withinLine_afterInteger.bind withinLine_suffixed hends tail
  · exact ⟨rfl, fun rest h => by cases h⟩

theorem afterQuotedLiteral_eq_none (hc : c ∉ ['"', 'b', 'c', 'r', '\'']) (text : List Char) :
    afterQuotedLiteral (c :: text) = none := by
  simp only [List.mem_cons, List.not_mem_nil, or_false, not_or] at hc
  unfold afterQuotedLiteral
  split <;> simp_all

theorem afterLiteral_append (hends : EndsLine text) (h : afterLiteral text = some rest)
    (tail : List Char) : afterLiteral (text ++ tail) = some (rest ++ tail) ∧ EndsLine rest := by
  unfold afterLiteral at h ⊢
  cases hquoted : afterQuotedLiteral text with
  | some after =>
    rw [hquoted] at h
    cases h
    obtain ⟨hread, hafter⟩ := afterQuotedLiteral_append hends hquoted tail
    obtain ⟨hsuffix, hrest⟩ := afterSuffix_append_of_endsLine hafter tail
    rw [hread]
    exact ⟨congrArg some hsuffix, hrest⟩
  | none =>
    -- A number opens with a digit, which opens no quoted literal whatever follows.
    rw [hquoted] at h
    obtain ⟨hread, hrest⟩ := withinLine_afterNumber hends tail
    simp only at h
    have hnone : afterQuotedLiteral (text ++ tail) = none := by
      obtain ⟨c, text, rfl⟩ := hends.exists_cons
      refine afterQuotedLiteral_eq_none (fun hmem => ?_) _
      have hall : ∀ d ∈ ['"', 'b', 'c', 'r', '\''], d.isDigit = false := by simp
      rw [afterNumber, List.head?_cons, Option.any_some, hall c hmem] at h
      cases h
    rw [hnone]
    simp only
    rw [hread, h]
    exact ⟨rfl, hrest rest h⟩

/-! ## 2. Punctuation -/

theorem opensPunct_append (hends : EndsLine text) (tail : List Char) :
    opensPunct (text ++ tail) = opensPunct text := by
  obtain ⟨c, text, rfl⟩ := hends.exists_cons
  by_cases hc : c = '/'
  · subst hc
    obtain ⟨d, text, rfl⟩ := (hends.after (by decide)).exists_cons
    by_cases hd : d = '/'
    · subst hd
      rfl
    · by_cases hd' : d = '*'
      · subst hd'
        rfl
      · rw [List.cons_append, List.cons_append, opensPunct, opensPunct]
        all_goals simp [hd, hd']
  · rw [List.cons_append, opensPunct_of_ne_slash hc, opensPunct_of_ne_slash hc]

theorem lifetime?_append (hends : EndsLine text) (tail : List Char) :
    lifetime? (text ++ tail) = (lifetime? text).map fun found => (found.1, found.2 ++ tail) := by
  unfold lifetime?
  rw [anyIdent?_append_of_endsLine hends]
  cases hident : anyIdent? text with
  | none => rfl
  | some found =>
    obtain ⟨i, rest⟩ := found
    obtain ⟨c, rest, rfl⟩ := (endsLine_of_anyIdent? hends hident).exists_cons
    simp only [Option.map_some, List.cons_append]
    by_cases htick : c = '\''
    · subst htick
      rfl
    · by_cases hsign : c = '#'
      · subst hsign
        show (if i.raw then _ else none) = Option.map _ (if i.raw then _ else none)
        split <;> rfl
      · split
        · next heq => exact absurd (List.cons.inj heq).1 htick
        · next heq => exact absurd (List.cons.inj heq).1 hsign
        · split
          · next heq => exact absurd (List.cons.inj heq).1 htick
          · next heq => exact absurd (List.cons.inj heq).1 hsign
          · rfl

theorem anyIdent?_of_lifetime? {i : Ident} (h : lifetime? text = some (i, rest)) :
    anyIdent? text = some (i, rest) := by
  unfold lifetime? at h
  cases hident : anyIdent? text with
  | none =>
    rw [hident] at h
    cases h
  | some found =>
    rw [hident] at h
    simp only at h
    split at h
    · cases h
    · split at h
      · exact h
      · cases h
    · exact h

theorem punct?_tick (text : List Char) : punct? ('\'' :: text) =
    (lifetime? text).map fun found => (.lifetime found.1, found.2) := rfl

theorem punct?_cons (hc : c ≠ '\'') (text : List Char) : punct? (c :: text) =
    if opensPunct (c :: text) then some (.punct c (opensPunct text), text) else none := by
  unfold punct?
  split
  · split
    · next heq => exact absurd (List.cons.inj heq).1 hc
    · next heq =>
      cases heq
      rfl
    · next heq => cases heq
  · rfl

theorem isPunct_of_opensPunct (h : opensPunct (c :: text) = true) : isPunct c = true := by
  unfold opensPunct at h
  split at h
  · cases h
  · cases h
  · next heq =>
    cases heq
    exact h
  · next heq => cases heq

theorem punct?_append (hends : EndsLine text) (tail : List Char) :
    punct? (text ++ tail) = (punct? text).map fun found => (found.1, found.2 ++ tail) := by
  obtain ⟨c, text, rfl⟩ := hends.exists_cons
  have hopens := opensPunct_append hends tail
  rw [List.cons_append] at hopens ⊢
  by_cases hc : c = '\''
  · subst hc
    rw [punct?_tick, punct?_tick, lifetime?_append (hends.after (by decide)), Option.map_map,
      Option.map_map]
    rfl
  · rw [punct?_cons hc, punct?_cons hc, hopens]
    split
    · next hpunct =>
      have hline : c ≠ '\n' := by
        rintro rfl
        exact absurd (isPunct_of_opensPunct hpunct) (by decide)
      rw [opensPunct_append (hends.after hline)]
      rfl
    · rfl

theorem endsLine_of_punct? {t : Token} (hends : EndsLine text) (h : punct? text = some (t, rest)) :
    EndsLine rest := by
  obtain ⟨c, text, rfl⟩ := hends.exists_cons
  by_cases hc : c = '\''
  · subst hc
    rw [punct?_tick] at h
    obtain ⟨⟨i, after⟩, hlifetime, heq⟩ := Option.map_eq_some_iff.mp h
    cases heq
    exact endsLine_of_anyIdent? (hends.after (by decide)) (anyIdent?_of_lifetime? hlifetime)
  · rw [punct?_cons hc] at h
    split at h
    · next hpunct =>
      cases h
      refine hends.after ?_
      rintro rfl
      exact absurd (isPunct_of_opensPunct hpunct) (by decide)
    · cases h

/-! ## 3. Tokens -/

theorem exists_of_name? {name : List Char} (h : name? text = some (name, rest)) :
    ∃ c after, text = c :: after ∧ opensIdent c = true := by
  cases text with
  | nil => cases h
  | cons c after =>
    rw [name?] at h
    split at h
    · next hc => exact ⟨c, after, rfl, hc⟩
    · cases h

theorem exists_of_anyIdent? {i : Ident} (h : anyIdent? text = some (i, rest)) :
    ∃ c after, text = c :: after ∧ opensIdent c = true := by
  unfold anyIdent? at h
  split at h
  · exact ⟨'r', _, rfl, by decide⟩
  · split at h
    · next hname => exact exists_of_name? hname
    · cases h

theorem afterRawOpening_eq_none (h : ∀ after, text.dropWhile (· == '#') ≠ '"' :: after) :
    afterRawOpening plain text = none := by
  unfold afterRawOpening
  simp only [drop_length_takeWhile]

/-- What opens no literal and is no quote either is no quoted literal. -/
theorem afterQuotedLiteral_of_not_opening (hc : opensIdent c = true)
    (h : ∀ s ∈ literalOpenings, s.toList.isPrefixOf (c :: text) = false) :
    afterQuotedLiteral (c :: text) = none := by
  have hquote : c ≠ '"' := ne_of_opensIdent hc (by decide)
  have htick : c ≠ '\'' := ne_of_opensIdent hc (by decide)
  -- After the letters of a raw text neither a quote follows nor a sign that could lead to one.
  have hraw {text : List Char} (hquote : ∀ after, text ≠ '"' :: after)
      (hsign : ∀ after, text ≠ '#' :: after) : ∀ after, text.dropWhile (· == '#') ≠ '"' :: after := by
    intro after
    cases text with
    | nil => simp
    | cons d text =>
      rw [List.dropWhile_cons_of_neg (by simpa using fun hd => hsign text (by rw [hd]))]
      exact hquote after
  unfold afterQuotedLiteral
  split
  · next heq => exact absurd (List.cons.inj heq).1 hquote
  · next heq =>
    cases heq
    exact absurd (h "b\"" (by decide)) (by simp)
  · next heq =>
    cases heq
    refine afterRawOpening_eq_none (hraw ?_ ?_)
    · rintro after rfl
      exact absurd (h "br\"" (by decide)) (by simp)
    · rintro after rfl
      exact absurd (h "br#" (by decide)) (by simp)
  · next heq =>
    cases heq
    exact absurd (h "b'" (by decide)) (by simp)
  · next heq =>
    cases heq
    exact absurd (h "c\"" (by decide)) (by simp)
  · next heq =>
    cases heq
    refine afterRawOpening_eq_none (hraw ?_ ?_)
    · rintro after rfl
      exact absurd (h "cr\"" (by decide)) (by simp)
    · rintro after rfl
      exact absurd (h "cr#" (by decide)) (by simp)
  · next heq =>
    cases heq
    refine afterRawOpening_eq_none ?_
    cases text with
    | nil => simp
    | cons d text =>
      by_cases hd : d = '#'
      · subst hd
        rw [List.dropWhile_cons_of_pos (by decide)]
        refine hraw ?_ ?_
        · rintro after rfl
          exact absurd (h "r#\"" (by decide)) (by simp)
        · rintro after rfl
          exact absurd (h "r##" (by decide)) (by simp)
      · refine hraw ?_ ?_
        · intro after heq
          cases heq
          exact absurd (h "r\"" (by decide)) (by simp)
        · intro after heq
          exact hd (List.cons.inj heq).1
  · next heq => exact absurd (List.cons.inj heq).1 htick
  · rfl

theorem afterQuotedLiteral_of_ident? {i : Ident} (hends : EndsLine text)
    (h : ident? text = some (i, rest)) (tail : List Char) :
    afterQuotedLiteral (text ++ tail) = none := by
  rw [ident?] at h
  split at h
  · cases h
  · next hopenings =>
    obtain ⟨c, after, rfl, hc⟩ := exists_of_anyIdent? h
    have hall : ∀ s ∈ literalOpenings, '\n' ∉ s.toList := by decide
    rw [Bool.not_eq_true, List.any_eq_false] at hopenings
    refine afterQuotedLiteral_of_not_opening hc fun s hs => ?_
    have hsame := isPrefixOf_append_of_endsLine hends (hall s hs) tail
    rw [List.cons_append] at hsame
    refine hsame.trans ?_
    exact Bool.eq_false_iff.mpr (hopenings s hs)

theorem afterQuotedLiteral_of_punct? {t : Token} (hends : EndsLine text)
    (h : punct? text = some (t, rest)) (hquoted : afterQuotedLiteral text = none)
    (tail : List Char) : afterQuotedLiteral (text ++ tail) = none := by
  obtain ⟨c, text, rfl⟩ := hends.exists_cons
  by_cases hc : c = '\''
  · subst hc
    rw [punct?_tick] at h
    obtain ⟨⟨i, after⟩, hlifetime, -⟩ := Option.map_eq_some_iff.mp h
    obtain ⟨d, after, rfl, hd⟩ := exists_of_anyIdent? (anyIdent?_of_lifetime? hlifetime)
    exact afterCharacter_append_eq_none (hends.after (by decide))
      (ne_of_opensIdent hd (by decide)) (ne_of_opensIdent hd (by decide)) hquoted tail
  · rw [punct?_cons hc] at h
    split at h
    · next hpunct =>
      have hplain := forall_isPunct (P := fun c => c == '\'' || ['"', 'b', 'c', 'r'].all (c != ·))
        (by decide) (isPunct_of_opensPunct hpunct)
      refine afterQuotedLiteral_eq_none ?_ _
      simpa [hc] using hplain
    · cases h

theorem leaf?_append {t : Token} (hends : EndsLine text) (h : leaf? text = some (t, rest))
    (tail : List Char) : leaf? (text ++ tail) = some (t, rest ++ tail) ∧ EndsLine rest := by
  unfold leaf? at h ⊢
  cases hliteral : afterLiteral text with
  | some after =>
    obtain ⟨hread, hafter⟩ := afterLiteral_append hends hliteral tail
    rw [hliteral] at h
    cases h
    rw [hread]
    refine ⟨?_, hafter⟩
    simp only [List.length_append, Nat.add_sub_add_right]
    rw [List.take_append_of_le_length (Nat.sub_le _ _)]
  | none =>
    rw [hliteral] at h
    -- What is no literal on the line is none with what follows either, unless a quote is left open.
    have hparts : afterQuotedLiteral text = none ∧ afterNumber text = none := by
      unfold afterLiteral at hliteral
      split at hliteral
      · cases hliteral
      · next hquoted => exact ⟨hquoted, hliteral⟩
    have hnumber : afterNumber (text ++ tail) = none := by
      rw [(withinLine_afterNumber hends tail).1, hparts.2]
      rfl
    have hnone (hquoted : afterQuotedLiteral (text ++ tail) = none) :
        afterLiteral (text ++ tail) = none := by
      unfold afterLiteral
      rw [hquoted]
      exact hnumber
    simp only at h
    cases hpunct : punct? text with
    | some found =>
      rw [hpunct] at h
      cases h
      rw [hnone (afterQuotedLiteral_of_punct? hends hpunct hparts.1 tail),
        punct?_append hends, hpunct]
      exact ⟨rfl, endsLine_of_punct? hends hpunct⟩
    | none =>
      rw [hpunct] at h
      obtain ⟨⟨i, after⟩, hident, heq⟩ := Option.map_eq_some_iff.mp h
      cases heq
      rw [hnone (afterQuotedLiteral_of_ident? hends hident tail), punct?_append hends, hpunct]
      simp only [Option.map_none]
      rw [ident?_append_of_endsLine hends, hident]
      exact ⟨rfl, endsLine_of_ident? hends hident⟩

end EnumCatalog.Lexer
