import EnumCatalog.Proofs.Pieces

/-!
# What a line feed ends

No token ends with a line feed. So a text that ends with one (`EndsLine`) is read the same in front
of any other text: a scanner that finds something in the first finds the same in both, and what is
left ends with that line feed still. Here this is said of words and of quoted literals. A word stops
at the line feed whatever follows; a literal that is open at the end of the text may be closed by
what follows, so only what *is* found stays.
-/

set_option autoImplicit false

namespace EnumCatalog.Lexer

open Text

/-- The text ends with the end of a line. -/
def EndsLine (text : List Char) : Prop := text.getLast? = some '\n'

variable {c d : Char} {text rest : List Char}

namespace EndsLine

theorem not_nil : ¬ EndsLine [] := by
  intro h
  cases h

theorem tail (h : EndsLine (c :: text)) (hne : text ≠ []) : EndsLine text := by
  rw [EndsLine, List.getLast?_cons_of_ne_nil hne] at h
  exact h

/-- What follows a character that ends no line. -/
theorem after (h : EndsLine (c :: text)) (hc : c ≠ '\n') : EndsLine text := by
  refine h.tail ?_
  rintro rfl
  exact hc (Option.some.inj h)

theorem exists_cons (h : EndsLine text) : ∃ c rest, text = c :: rest := by
  cases text with
  | nil => exact absurd h not_nil
  | cons c rest => exact ⟨c, rest, rfl⟩

theorem of_suffix (h : EndsLine text) (hrest : rest <:+ text) (hne : rest ≠ []) :
    EndsLine rest := by
  obtain ⟨front, rfl⟩ := hrest
  rw [EndsLine, List.getLast?_append, List.getLast?_eq_some_getLast hne, Option.some_or] at h
  rwa [EndsLine, List.getLast?_eq_some_getLast hne]

theorem exists_of_isPrefixOf {cs : List Char} (h : EndsLine text) (hcs : '\n' ∉ cs)
    (hstarts : cs.isPrefixOf text = true) : ∃ after, text = cs ++ after ∧ EndsLine after := by
  obtain ⟨after, rfl⟩ := List.isPrefixOf_iff_prefix.mp hstarts
  refine ⟨after, rfl, h.of_suffix (List.suffix_append _ _) ?_⟩
  rintro rfl
  rw [List.append_nil] at h
  exact hcs (List.mem_of_getLast? h)

end EndsLine

/-! ## 1. Words -/

variable {p : Char → Bool}

/-- Characters of a kind that no line feed is of. -/
theorem takeWhile_append_of_endsLine (h : EndsLine text) (hp : p '\n' = false) (tail : List Char) :
    (text ++ tail).takeWhile p = text.takeWhile p := by
  induction text with
  | nil => exact absurd h EndsLine.not_nil
  | cons c text ih =>
    rw [List.cons_append, List.takeWhile_cons, List.takeWhile_cons]
    by_cases hc : p c = true
    · rw [if_pos hc, if_pos hc, ih (h.after (by rintro rfl; simp [hp] at hc))]
    · rw [if_neg hc, if_neg hc]

theorem dropWhile_append_of_endsLine (h : EndsLine text) (hp : p '\n' = false) (tail : List Char) :
    (text ++ tail).dropWhile p = text.dropWhile p ++ tail ∧ EndsLine (text.dropWhile p) := by
  induction text with
  | nil => exact absurd h EndsLine.not_nil
  | cons c text ih =>
    rw [List.cons_append, List.dropWhile_cons, List.dropWhile_cons]
    by_cases hc : p c = true
    · rw [if_pos hc, if_pos hc]
      exact ih (h.after (by rintro rfl; simp [hp] at hc))
    · rw [if_neg hc, if_neg hc]
      exact ⟨rfl, h⟩

theorem name?_append_of_endsLine (h : EndsLine text) (tail : List Char) :
    name? (text ++ tail) = (name? text).map fun found => (found.1, found.2 ++ tail) := by
  obtain ⟨c, text, rfl⟩ := h.exists_cons
  rw [List.cons_append, name?, name?]
  by_cases hc : opensIdent c = true
  · have htext := h.after (ne_of_opensIdent hc (by decide))
    rw [if_pos hc, if_pos hc, takeWhile_append_of_endsLine htext (by decide),
      (dropWhile_append_of_endsLine htext (by decide) tail).1]
    rfl
  · rw [if_neg hc, if_neg hc]
    rfl

theorem endsLine_of_name? {name : List Char} (h : EndsLine text)
    (hname : name? text = some (name, rest)) : EndsLine rest := by
  obtain ⟨c, text, rfl⟩ := h.exists_cons
  rw [name?] at hname
  by_cases hc : opensIdent c = true
  · rw [if_pos hc] at hname
    cases hname
    have htext := h.after (ne_of_opensIdent hc (by decide))
    exact (dropWhile_append_of_endsLine htext (by decide) []).2
  · rw [if_neg hc] at hname
    cases hname

/-- A text that ends its line opens with some characters if it does so in front of others. -/
theorem isPrefixOf_append_of_endsLine {cs : List Char} (h : EndsLine text) (hcs : '\n' ∉ cs)
    (tail : List Char) : cs.isPrefixOf (text ++ tail) = cs.isPrefixOf text := by
  induction cs generalizing text with
  | nil => simp
  | cons c cs ih =>
    obtain ⟨d, text, rfl⟩ := h.exists_cons
    rw [List.cons_append, List.isPrefixOf, List.isPrefixOf]
    by_cases hd : c = d
    · subst hd
      rw [List.mem_cons, not_or] at hcs
      rw [ih (h.after (Ne.symm hcs.1)) hcs.2]
    · rw [beq_false_of_ne hd, Bool.false_and, Bool.false_and]

/-- The raw mark of an identifier is there or not, whatever follows the line. -/
theorem raw_or_not (h : EndsLine text) :
    (∃ after, text = 'r' :: '#' :: after ∧ EndsLine after) ∨
      ∀ tail after, text ++ tail ≠ 'r' :: '#' :: after := by
  obtain ⟨c, text, rfl⟩ := h.exists_cons
  by_cases hc : c = 'r'
  · subst hc
    have htext := h.after (by decide)
    obtain ⟨d, text, rfl⟩ := htext.exists_cons
    by_cases hd : d = '#'
    · subst hd
      exact .inl ⟨text, rfl, htext.after (by decide)⟩
    · exact .inr fun tail after heq => hd (List.cons.inj (List.cons.inj heq).2).1
  · exact .inr fun tail after heq => hc (List.cons.inj heq).1

/-- The identifier of a name, unless it is raw and cannot be. -/
def identOf? (raw : Bool) (name : List Char) : Option Ident :=
  if h : isIdentText (String.ofList name).toList = true ∧
      (raw && neverRaw.contains (String.ofList name)) = false then
    some ⟨raw, String.ofList name, h.1, h.2⟩
  else none

theorem anyIdent?_raw (text : List Char) : anyIdent? ('r' :: '#' :: text) =
    (name? text).bind fun found => (identOf? true found.1).map (·, found.2) := by
  unfold anyIdent?
  simp only
  split
  · next name rest hname =>
    have htext := isIdentText_of_name? hname
    refine Eq.trans ?_ (congrArg (Option.bind · _) hname).symm
    rw [Option.bind_some, identOf?]
    split
    · next hnever =>
      rw [dif_neg (by simp only [hnever, Bool.and_self, Bool.true_eq_false, and_false,
        not_false_eq_true])]
      rfl
    · next hnever =>
      rw [dif_pos ⟨htext, by simpa using hnever⟩]
      rfl
  · next hname =>
    rw [hname]
    rfl

theorem anyIdent?_plain (h : ∀ after, text ≠ 'r' :: '#' :: after) : anyIdent? text =
    (name? text).bind fun found => (identOf? false found.1).map (·, found.2) := by
  unfold anyIdent?
  split
  · next after => exact absurd rfl (h after)
  · split
    · next name rest hname =>
      refine Eq.trans ?_ (congrArg (Option.bind · _) hname).symm
      rw [Option.bind_some, identOf?, dif_pos ⟨isIdentText_of_name? hname, rfl⟩]
      rfl
    · next hname =>
      rw [hname]
      rfl

theorem anyIdent?_append_of_endsLine (h : EndsLine text) (tail : List Char) :
    anyIdent? (text ++ tail) = (anyIdent? text).map fun found => (found.1, found.2 ++ tail) := by
  rcases raw_or_not h with ⟨after, rfl, hafter⟩ | hplain
  · rw [List.cons_append, List.cons_append, anyIdent?_raw, anyIdent?_raw,
      name?_append_of_endsLine hafter, Option.bind_map, Option.map_bind]
    congr 1
    funext found
    rw [Function.comp_apply, Function.comp_apply, Option.map_map]
    rfl
  · rw [anyIdent?_plain (hplain tail), anyIdent?_plain (by simpa using hplain []),
      name?_append_of_endsLine h, Option.bind_map, Option.map_bind]
    congr 1
    funext found
    rw [Function.comp_apply, Function.comp_apply, Option.map_map]
    rfl

theorem endsLine_of_anyIdent? {i : Ident} (h : EndsLine text)
    (hident : anyIdent? text = some (i, rest)) : EndsLine rest := by
  have hfound {raw : Bool} {text : List Char} (h : EndsLine text)
      (hident : ((name? text).bind fun found => (identOf? raw found.1).map (·, found.2)) =
        some (i, rest)) : EndsLine rest := by
    obtain ⟨⟨name, after⟩, hname, hident⟩ := Option.bind_eq_some_iff.mp hident
    obtain ⟨j, -, heq⟩ := Option.map_eq_some_iff.mp hident
    cases heq
    exact endsLine_of_name? h hname
  rcases raw_or_not h with ⟨after, rfl, hafter⟩ | hplain
  · rw [anyIdent?_raw] at hident
    exact hfound hafter hident
  · rw [anyIdent?_plain (by simpa using hplain [])] at hident
    exact hfound h hident

theorem ident?_append_of_endsLine (h : EndsLine text) (tail : List Char) :
    ident? (text ++ tail) = (ident? text).map fun found => (found.1, found.2 ++ tail) := by
  have hopenings : (literalOpenings.any fun s => s.toList.isPrefixOf (text ++ tail)) =
      literalOpenings.any fun s => s.toList.isPrefixOf text := by
    have hall : ∀ s ∈ literalOpenings, '\n' ∉ s.toList := by decide
    rw [Bool.eq_iff_iff, List.any_eq_true, List.any_eq_true]
    refine exists_congr fun s => and_congr_right fun hs => ?_
    rw [isPrefixOf_append_of_endsLine h (hall s hs)]
  rw [ident?, ident?, hopenings]
  split
  · rfl
  · exact anyIdent?_append_of_endsLine h tail

theorem endsLine_of_ident? {i : Ident} (h : EndsLine text)
    (hident : ident? text = some (i, rest)) : EndsLine rest := by
  rw [ident?] at hident
  split at hident
  · cases hident
  · exact endsLine_of_anyIdent? h hident

theorem afterSuffix_append_of_endsLine (h : EndsLine text) (tail : List Char) :
    afterSuffix (text ++ tail) = afterSuffix text ++ tail ∧ EndsLine (afterSuffix text) := by
  rw [afterSuffix, afterSuffix, name?_append_of_endsLine h]
  cases hname : name? text with
  | none => exact ⟨rfl, h⟩
  | some found => exact ⟨rfl, endsLine_of_name? h hname⟩

/-! ## 2. Quoted literals -/

variable {rule : QuoteRule} {s : QuoteState}

theorem eq_quote_of_quoteStep (h : quoteStep rule s c = .close) : c = '"' := by
  have hplain (h : plainStep rule c = .close) : c = '"' := by
    unfold plainStep at h
    split at h
    · next hc => exact eq_of_beq hc
    · split at h
      · cases h
      · split at h
        · cases h
        · split at h <;> cases h
  -- Between escapes a quote closes the literal, within one it never does.
  cases s with
  | plain => exact hplain h
  | joined =>
    rw [quoteStep] at h
    split at h
    · cases h
    · split at h
      · cases h
      · exact hplain h
  | hexFirst => cases h
  | backslash =>
    rw [quoteStep] at h
    repeat' split at h
    all_goals cases h
  | digits count value =>
    rw [quoteStep] at h
    repeat' split at h
    all_goals cases h
  | _ =>
    rw [quoteStep] at h
    split at h <;> cases h

/-- A quote that was closed is closed in front of anything. -/
theorem afterQuoted_append (h : afterQuoted rule s text = some rest) (tail : List Char) :
    afterQuoted rule s (text ++ tail) = some (rest ++ tail) ∧ (EndsLine text → EndsLine rest) := by
  induction text generalizing s with
  | nil => cases h
  | cons c text ih =>
    rw [afterQuoted] at h
    rw [List.cons_append, afterQuoted]
    split at h
    · next s' hstep =>
      obtain ⟨hread, hrest⟩ := ih h
      refine ⟨hread, fun hends => hrest (hends.tail ?_)⟩
      rintro rfl
      cases h
    · next hstep =>
      cases h
      obtain rfl := eq_quote_of_quoteStep hstep
      exact ⟨rfl, fun hends => hends.after (by decide)⟩
    · cases h

/-- What follows an escape is a part of what ends the line. -/
theorem afterEscape_append (h : afterEscape rule s text = some rest) (tail : List Char) :
    afterEscape rule s (text ++ tail) = some (rest ++ tail) ∧ rest <:+ text := by
  -- Character by character, for each state that an escape can be in.
  induction text generalizing s with
  | nil =>
    cases s with
    | plain =>
      cases h
      rw [afterEscape]
      exact ⟨rfl, List.suffix_rfl⟩
    | _ => simp [afterEscape] at h
  | cons c text ih =>
    rw [List.cons_append]
    cases s with
    | plain =>
      cases h
      exact ⟨rfl, List.suffix_rfl⟩
    | joined => simp [afterEscape] at h
    | joinedCr => simp [afterEscape] at h
    | _ =>
      rw [afterEscape] at h ⊢
      split at h
      · obtain ⟨hread, hrest⟩ := ih h
        exact ⟨hread, hrest.trans (List.suffix_cons _ _)⟩
      · cases h
      all_goals simp

variable {plain : Char → Bool} {close : List Char}

theorem afterRaw_append (hclose : '\n' ∉ close) (hends : EndsLine text)
    (h : afterRaw plain close text = some rest) (tail : List Char) :
    afterRaw plain close (text ++ tail) = some (rest ++ tail) ∧ EndsLine rest := by
  -- Along the search for what closes the literal, which has no line end in it.
  fun_induction afterRaw plain close text with
  | case1 => cases h
  | case2 text hstarts =>
    cases h
    have htext := hends.after (by decide)
    rw [List.cons_append, afterRaw, isPrefixOf_append_of_endsLine htext hclose, if_pos hstarts]
    obtain ⟨after, rfl, hafter⟩ := htext.exists_of_isPrefixOf hclose hstarts
    simp [hafter]
  | case3 text hstarts ih =>
    have htext := hends.after (by decide)
    rw [List.cons_append, afterRaw, isPrefixOf_append_of_endsLine htext hclose, if_neg hstarts]
    exact ih htext h
  | case4 text ih =>
    have htext := (hends.after (by decide)).tail (by rintro rfl; cases h)
    exact ih htext h
  | case5 => cases h
  | case6 c text hquote hcrlf hcr hplain ih =>
    have htext := hends.tail (by rintro rfl; cases h)
    rw [List.cons_append, afterRaw, if_pos hplain]
    · exact ih htext h
    · exact hquote
    · intro after heq
      exact fun _ => hcr heq
    · exact hcr
  | case7 => cases h

theorem drop_length_takeWhile (text : List Char) :
    text.drop (text.takeWhile p).length = text.dropWhile p :=
  (congrArg (List.drop _) List.takeWhile_append_dropWhile.symm).trans List.drop_left

theorem afterRawOpening_append (hends : EndsLine text)
    (h : afterRawOpening plain text = some rest) (tail : List Char) :
    afterRawOpening plain (text ++ tail) = some (rest ++ tail) ∧ EndsLine rest := by
  have hsigns : '\n' ∉ text.takeWhile (· == '#') := by
    intro hmem
    have hsign := List.all_eq_true.mp List.all_takeWhile _ hmem
    exact absurd hsign (by decide)
  obtain ⟨hdrop, hafter⟩ := dropWhile_append_of_endsLine hends (p := (· == '#')) (by decide) tail
  unfold afterRawOpening at h ⊢
  simp only [drop_length_takeWhile] at h ⊢
  rw [takeWhile_append_of_endsLine hends (by decide), hdrop]
  split at h
  · next after heq =>
    rw [heq] at hafter ⊢
    split at h
    · next hcount =>
      simp only [List.cons_append]
      rw [if_pos hcount]
      exact afterRaw_append hsigns (hafter.after (by decide)) h tail
    · cases h
  · cases h

/-- What follows a quote that closes a character. -/
def afterTick : List Char → Option (List Char)
  | '\'' :: rest => some rest
  | _ => none

theorem afterTick_append (hends : EndsLine text) (tail : List Char) :
    afterTick (text ++ tail) = (afterTick text).map (· ++ tail) := by
  obtain ⟨c, text, rfl⟩ := hends.exists_cons
  rw [List.cons_append]
  unfold afterTick
  split
  · next heq =>
    cases heq
    rfl
  · next hne =>
    split
    · next heq =>
      cases heq
      exact absurd rfl (hne _)
    · rfl

theorem eq_of_afterTick (h : afterTick text = some rest) : text = '\'' :: rest := by
  unfold afterTick at h
  split at h
  · cases h
    rfl
  · cases h

theorem match_eq_afterTick (found : Option (List Char)) : (match found with
    | some ('\'' :: rest) => some rest
    | _ => none) = found.bind afterTick := by
  cases found with
  | none => rfl
  | some text =>
    rw [Option.bind_some]
    unfold afterTick
    split <;> simp_all

theorem afterCharacter_backslash (rule : QuoteRule) (text : List Char) :
    afterCharacter rule ('\\' :: text) = (afterEscape rule .backslash text).bind afterTick :=
  match_eq_afterTick _

theorem afterCharacter_cons (hc : c ≠ '\\') (text : List Char) :
    afterCharacter rule (c :: text) = if rule.plain c then afterTick text else none := by
  have hread : afterCharacter rule (c :: text) =
      (if rule.plain c then some text else none).bind afterTick := by
    unfold afterCharacter
    simp only
    exact match_eq_afterTick _
  rw [hread]
  split <;> rfl

theorem afterCharacter_append (hends : EndsLine text)
    (h : afterCharacter rule text = some rest) (tail : List Char) :
    afterCharacter rule (text ++ tail) = some (rest ++ tail) ∧ EndsLine rest := by
  have htick {text : List Char} (hends : EndsLine text) (h : afterTick text = some rest) :
      afterTick (text ++ tail) = some (rest ++ tail) ∧ EndsLine rest := by
    rw [afterTick_append hends, h]
    rw [eq_of_afterTick h] at hends
    exact ⟨rfl, hends.after (by decide)⟩
  obtain ⟨c, text, rfl⟩ := hends.exists_cons
  rw [List.cons_append]
  -- An escape or one plain character, and the closing quote right after it.
  by_cases hc : c = '\\'
  · subst hc
    have htext := hends.after (by decide)
    rw [afterCharacter_backslash] at h ⊢
    obtain ⟨after, hescape, hafter⟩ := Option.bind_eq_some_iff.mp h
    obtain ⟨hread, hsuffix⟩ := afterEscape_append hescape tail
    rw [hread, Option.bind_some]
    refine htick (htext.of_suffix hsuffix ?_) hafter
    rw [eq_of_afterTick hafter]
    exact List.cons_ne_nil _ _
  · rw [afterCharacter_cons hc] at h ⊢
    split at h
    · next hplain =>
      rw [if_pos hplain]
      refine htick (hends.tail ?_) h
      rintro rfl
      cases h
    · cases h

/-- A character that no quote closes is not closed later if anything follows it. -/
theorem afterCharacter_append_eq_none (hends : EndsLine (c :: text)) (hc : c ≠ '\\')
    (hline : c ≠ '\n') (h : afterCharacter rule (c :: text) = none) (tail : List Char) :
    afterCharacter rule (c :: text ++ tail) = none := by
  rw [List.cons_append, afterCharacter_cons hc]
  rw [afterCharacter_cons hc] at h
  split at h
  · next hplain => rw [if_pos hplain, afterTick_append (hends.after hline), h, Option.map_none]
  · next hplain => rw [if_neg hplain]

theorem afterQuotedLiteral_append (hends : EndsLine text)
    (h : afterQuotedLiteral text = some rest) (tail : List Char) :
    afterQuotedLiteral (text ++ tail) = some (rest ++ tail) ∧ EndsLine rest := by
  have hquoted {rule : QuoteRule} {text : List Char} (hends : EndsLine text)
      (h : afterQuoted rule .plain text = some rest) :
      afterQuoted rule .plain (text ++ tail) = some (rest ++ tail) ∧ EndsLine rest :=
    (afterQuoted_append h tail).imp_right fun hrest => hrest hends
  unfold afterQuotedLiteral at h
  split at h
  · exact hquoted (hends.after (by decide)) h
  · exact hquoted ((hends.after (by decide)).after (by decide)) h
  · exact afterRawOpening_append ((hends.after (by decide)).after (by decide)) h tail
  · exact afterCharacter_append ((hends.after (by decide)).after (by decide)) h tail
  · exact hquoted ((hends.after (by decide)).after (by decide)) h
  · exact afterRawOpening_append ((hends.after (by decide)).after (by decide)) h tail
  · exact afterRawOpening_append (hends.after (by decide)) h tail
  · exact afterCharacter_append (hends.after (by decide)) h tail
  · cases h

end EnumCatalog.Lexer
