import EnumCatalog.Proofs.LineTokens

/-!
# Texts of whole lines

A text that ends its last line has the same tokens in front of comments (`tokens?_append`). Nothing
in it reaches past its end: comments end with their line or are closed, and a block comment that is
left open leaves the text without tokens.
-/

set_option autoImplicit false

namespace EnumCatalog.Lexer

open Text

variable {c : Char} {text rest : List Char}

/-! ## 1. Comments -/

theorem splitLine_append_of_endsLine (hends : EndsLine text) (tail : List Char) :
    splitLine (text ++ tail) = ((splitLine text).1, (splitLine text).2 ++ tail) ∧
      EndsLine (splitLine text).2 := by
  fun_induction splitLine text with
  | case1 => exact absurd hends EndsLine.not_nil
  | case2 rest => exact ⟨rfl, hends⟩
  | case3 rest => exact ⟨rfl, hends.after (by decide)⟩
  | case4 c rest hline hcr ih =>
    obtain ⟨hsplit, hrest⟩ := ih (hends.after hline)
    refine ⟨?_, hrest⟩
    rw [List.cons_append, splitLine, hsplit]
    · exact hline
    · intro after hc heq
      obtain ⟨d, rest, rfl⟩ := (hends.after hline).exists_cons
      cases heq
      exact hcr rest hc rfl

theorem afterBlock_append {depth : Nat} (h : afterBlock depth text = some rest)
    (tail : List Char) :
    afterBlock depth (text ++ tail) = some (rest ++ tail) ∧ (EndsLine text → EndsLine rest) := by
  -- Along the search for the end of the comment, which looks at nothing behind it.
  fun_induction afterBlock depth text with
  | case1 => cases h
  | case2 depth text ih =>
    obtain ⟨hread, hrest⟩ := ih h
    exact ⟨hread, fun hends => hrest ((hends.after (by decide)).after (by decide))⟩
  | case3 depth text hdepth =>
    cases h
    refine ⟨?_, fun hends => (hends.after (by decide)).after (by decide)⟩
    rw [List.cons_append, List.cons_append, afterBlock, if_pos hdepth]
  | case4 depth text hdepth ih =>
    obtain ⟨hread, hrest⟩ := ih h
    refine ⟨?_, fun hends => hrest ((hends.after (by decide)).after (by decide))⟩
    rw [List.cons_append, List.cons_append, afterBlock, if_neg hdepth]
    exact hread
  | case5 depth c text hopen hclose ih =>
    obtain ⟨hread, hrest⟩ := ih h
    have hne : text ≠ [] := by
      rintro rfl
      cases h
    obtain ⟨d, text, rfl⟩ := List.exists_cons_of_ne_nil hne
    refine ⟨?_, fun hends => hrest (hends.tail hne)⟩
    rw [List.cons_append, afterBlock]
    · exact hread
    · intro after hc heq
      cases heq
      exact hopen text hc rfl
    · intro after hc heq
      cases heq
      exact hclose text hc rfl

theorem isPrefixOf_eq_false {cs : List Char} (h : ∀ after, text = cs ++ after → False) :
    cs.isPrefixOf text = false := by
  refine Bool.eq_false_iff.mpr fun hstarts => ?_
  obtain ⟨after, heq⟩ := List.isPrefixOf_iff_prefix.mp hstarts
  exact h after heq.symm

theorem opensLineComment_eq (text : List Char) : opensLineComment text =
    (['/', '/'].isPrefixOf text && (['/', '/', '/', '/'].isPrefixOf text ||
      !(['/', '/', '/'].isPrefixOf text || ['/', '/', '!'].isPrefixOf text))) := by
  fun_cases opensLineComment text with
  | case1 => simp
  | case2 rest hslash =>
    have h : List.isPrefixOf ['/'] rest = false := isPrefixOf_eq_false hslash
    simp [List.isPrefixOf, h]
  | case3 => simp [List.isPrefixOf]
  | case4 rest hslash hslashes hbang =>
    have h : List.isPrefixOf ['/'] rest = false := isPrefixOf_eq_false hslashes
    have h' : List.isPrefixOf ['!'] rest = false := isPrefixOf_eq_false hbang
    simp [List.isPrefixOf, h, h']
  | case5 text hfour hthree hbang htwo =>
    rw [isPrefixOf_eq_false htwo, Bool.false_and]

theorem opensBlockComment_eq (text : List Char) : opensBlockComment text =
    (['/', '*'].isPrefixOf text && (['/', '*', '*', '/'].isPrefixOf text ||
      ['/', '*', '*', '*'].isPrefixOf text ||
      !(['/', '*', '*'].isPrefixOf text || ['/', '*', '!'].isPrefixOf text))) := by
  fun_cases opensBlockComment text with
  | case1 => simp
  | case2 => simp
  | case3 rest hslash hstar =>
    have h : List.isPrefixOf ['/'] rest = false := isPrefixOf_eq_false hslash
    have h' : List.isPrefixOf ['*'] rest = false := isPrefixOf_eq_false hstar
    simp [List.isPrefixOf, h, h']
  | case4 => simp [List.isPrefixOf]
  | case5 rest hslash hstars hstar hbang =>
    have h : List.isPrefixOf ['*'] rest = false := isPrefixOf_eq_false hstar
    have h' : List.isPrefixOf ['!'] rest = false := isPrefixOf_eq_false hbang
    simp [List.isPrefixOf, h, h']
  | case6 text hslash hstars hstar hbang htwo =>
    rw [isPrefixOf_eq_false htwo, Bool.false_and]

/-- What tells a comment is looked for only up to the end of the line. -/
theorem opensLineComment_append (hends : EndsLine text) (tail : List Char) :
    opensLineComment (text ++ tail) = opensLineComment text := by
  simp only [opensLineComment_eq]
  rw [isPrefixOf_append_of_endsLine hends (by decide), isPrefixOf_append_of_endsLine hends (by decide),
    isPrefixOf_append_of_endsLine hends (by decide), isPrefixOf_append_of_endsLine hends (by decide)]

theorem opensBlockComment_append (hends : EndsLine text) (tail : List Char) :
    opensBlockComment (text ++ tail) = opensBlockComment text := by
  simp only [opensBlockComment_eq]
  rw [isPrefixOf_append_of_endsLine hends (by decide), isPrefixOf_append_of_endsLine hends (by decide),
    isPrefixOf_append_of_endsLine hends (by decide), isPrefixOf_append_of_endsLine hends (by decide),
    isPrefixOf_append_of_endsLine hends (by decide)]

/-- Nothing but a comment starts like a block comment. -/
theorem lexemes?_block (h : docComment? ('/' :: '*' :: text) = none) :
    lexemes? ('/' :: '*' :: text) = none := by
  have hleaf : leaf? ('/' :: '*' :: text) = none := rfl
  unfold lexemes?
  rw [h]
  simp only
  rw [hleaf]
  rfl

section

variable {doc : List Char} {inner : Bool}

theorem docComment?_block_append {mark : Char} {inner' : Bool}
    (hends : EndsLine text) (h : docComment?.block mark text inner = some (doc, inner', rest))
    (tail : List Char) :
    docComment?.block mark (text ++ tail) inner = some (doc, inner', rest ++ tail) ∧
      EndsLine rest := by
  unfold docComment?.block at h ⊢
  obtain ⟨after, hafter, heq⟩ := Option.map_eq_some_iff.mp h
  cases heq
  obtain ⟨hread, hrest⟩ := afterBlock_append hafter tail
  refine ⟨?_, hrest ?_⟩
  · rw [← List.cons_append, hread]
    simp only [Option.map_some, List.length_append, Nat.add_sub_add_right]
    rw [List.take_append_of_le_length (by omega)]
  · rw [EndsLine, List.getLast?_cons_of_ne_nil]
    · exact hends
    · rintro rfl
      exact EndsLine.not_nil hends

/-- The first character of what ends its line is that of any longer text. -/
theorem append_ne_cons (hends : EndsLine text) (h : ∀ after, text = c :: after → False)
    (tail after : List Char) : text ++ tail = c :: after → False := by
  obtain ⟨d, text, rfl⟩ := hends.exists_cons
  intro heq
  cases heq
  exact h text rfl

theorem docComment?_append (hends : EndsLine text)
    (h : docComment? text = some (doc, inner, rest)) (tail : List Char) :
    docComment? (text ++ tail) = some (doc, inner, rest ++ tail) ∧ EndsLine rest := by
  unfold docComment? at h
  -- Documentation goes up to the line's end or to the end of its brackets, of what is around it or
  -- of what comes next.
  split at h
  · next text =>
    have htext := ((hends.after (by decide)).after (by decide)).after (by decide)
    obtain ⟨hsplit, hrest⟩ := splitLine_append_of_endsLine htext tail
    cases h
    refine ⟨?_, hrest⟩
    show some ((splitLine (text ++ tail)).1, true, (splitLine (text ++ tail)).2) = _
    rw [hsplit]
  · cases h
  · next text hslash =>
    have htext := ((hends.after (by decide)).after (by decide)).after (by decide)
    obtain ⟨hsplit, hrest⟩ := splitLine_append_of_endsLine htext tail
    cases h
    refine ⟨?_, hrest⟩
    rw [List.cons_append, List.cons_append, List.cons_append, docComment?, hsplit]
    exact append_ne_cons htext hslash tail
  · next text =>
    have htext := ((hends.after (by decide)).after (by decide)).after (by decide)
    exact docComment?_block_append htext h tail
  · cases h
  · next text hstar =>
    have htext := ((hends.after (by decide)).after (by decide)).after (by decide)
    obtain ⟨hread, hrest⟩ := docComment?_block_append htext h tail
    refine ⟨?_, hrest⟩
    rw [List.cons_append, List.cons_append, List.cons_append, docComment?, hread]
    exact append_ne_cons htext hstar tail
  · cases h

theorem docComment?_append_eq_none (hends : EndsLine text) (h : docComment? text = none)
    (hsome : lexemes? text ≠ none) (tail : List Char) : docComment? (text ++ tail) = none := by
  by_cases hblock : ['/', '*'].isPrefixOf text = true
  · obtain ⟨after, rfl⟩ := List.isPrefixOf_iff_prefix.mp hblock
    exact absurd (lexemes?_block h) hsome
  -- Nothing that documentation starts with has a line end in it, so it would start the text alone.
  · have hopens (cs : List Char) {after : List Char} (hcs : '\n' ∉ cs) (heq : text ++ tail = cs ++ after) :
        ∃ after', text = cs ++ after' := by
      have hstarts := isPrefixOf_append_of_endsLine hends hcs tail
      rw [heq, List.isPrefixOf_iff_prefix.mpr (List.prefix_append _ _)] at hstarts
      obtain ⟨after', hafter⟩ := List.isPrefixOf_iff_prefix.mp hstarts.symm
      exact ⟨after', hafter.symm⟩
    unfold docComment?
    split
    · next heq =>
      obtain ⟨after, rfl⟩ := hopens ['/', '/', '!'] (by decide) heq
      cases h
    · rfl
    · next hslash heq =>
      obtain ⟨after, rfl⟩ := hopens ['/', '/', '/'] (by decide) heq
      cases heq
      rw [List.cons_append, List.cons_append, List.cons_append, docComment?] at h
      · cases h
      · rintro after' rfl
        exact hslash (after' ++ tail) rfl
    · next heq =>
      obtain ⟨after, rfl⟩ := hopens ['/', '*'] (by decide) heq
      exact absurd rfl hblock
    · rfl
    · next heq =>
      obtain ⟨after, rfl⟩ := hopens ['/', '*'] (by decide) heq
      exact absurd rfl hblock
    · rfl

end

/-! ## 2. Steps of cutting -/

theorem afterBlank?_append (hends : EndsLine text) (h : afterBlank? text = some rest)
    (tail : List Char) :
    afterBlank? (text ++ tail) = some (rest ++ tail) ∧ (rest = [] ∨ EndsLine rest) := by
  unfold afterBlank? at h ⊢
  rw [opensLineComment_append hends, opensBlockComment_append hends]
  -- What is passed over is a comment up to the line's end, one in brackets, or a blank character.
  split at h
  · next hline =>
    obtain ⟨hsplit, hrest⟩ := splitLine_append_of_endsLine hends tail
    cases h
    rw [if_pos hline, hsplit]
    exact ⟨rfl, .inr hrest⟩
  · next hline =>
    rw [if_neg hline]
    split at h
    · next hblock =>
      rw [if_pos hblock]
      unfold afterBlockComment at h
      split at h
      · obtain ⟨hread, hrest⟩ := afterBlock_append h tail
        exact ⟨hread, .inr (hrest ((hends.after (by decide)).after (by decide)))⟩
      · cases h
    · next hblock =>
      rw [if_neg hblock]
      obtain ⟨c, text, rfl⟩ := hends.exists_cons
      simp only [List.cons_append] at h ⊢
      split at h
      · next hblank =>
        cases h
        rw [if_pos hblank]
        refine ⟨rfl, ?_⟩
        by_cases hrest : rest = []
        · exact .inl hrest
        · exact .inr (hends.tail hrest)
      · cases h

theorem afterBlank?_append_eq_none (hends : EndsLine text) (h : afterBlank? text = none)
    (hsome : lexemes? text ≠ none) (tail : List Char) : afterBlank? (text ++ tail) = none := by
  unfold afterBlank? at h ⊢
  rw [opensLineComment_append hends, opensBlockComment_append hends]
  split at h
  · cases h
  · next hline =>
    rw [if_neg hline]
    split at h
    · next hblock =>
      -- A comment that is not closed is no doc comment either, so nothing is read at all.
      unfold afterBlockComment at h
      split at h
      · next after =>
        refine absurd (lexemes?_block ?_) hsome
        cases hdoc : docComment? ('/' :: '*' :: after) with
        | none => rfl
        | some found =>
          unfold docComment? at hdoc
          split at hdoc
          · next heq => cases heq
          · cases hdoc
          · next heq => cases heq
          · next heq =>
            cases heq
            cases hblock
          · cases hdoc
          · next heq =>
            cases heq
            rw [docComment?.block, h] at hdoc
            cases hdoc
          · cases hdoc
      · next hopen =>
        rw [opensBlockComment_eq, isPrefixOf_eq_false fun after heq => hopen after heq] at hblock
        cases hblock
    · next hblock =>
      rw [if_neg hblock]
      obtain ⟨c, text, rfl⟩ := hends.exists_cons
      simp only [List.cons_append] at h ⊢
      split at h
      · cases h
      · next hblank => rw [if_neg hblank]

theorem lexemes?_append {found : List Lexeme} (hends : EndsLine text)
    (h : lexemes? text = some (found, rest)) (tail : List Char) :
    lexemes? (text ++ tail) = some (found, rest ++ tail) ∧ EndsLine rest := by
  have hsome : lexemes? text ≠ none := by
    rw [h]
    exact Option.some_ne_none _
  cases hdoc : docComment? text with
  | some comment =>
    obtain ⟨doc, inner, after⟩ := comment
    obtain ⟨hread, hafter⟩ := docComment?_append hends hdoc tail
    unfold lexemes? at h ⊢
    rw [hdoc] at h
    rw [hread]
    simp only at h ⊢
    split at h
    · next hpaired =>
      cases h
      rw [if_pos hpaired]
      exact ⟨rfl, hafter⟩
    · cases h
  | none =>
    -- What follows the line makes no documentation of its start.
    have hread := docComment?_append_eq_none hends hdoc hsome tail
    unfold lexemes? at h ⊢
    rw [hdoc] at h
    rw [hread, isPrefixOf_append_of_endsLine hends (by decide)]
    simp only at h ⊢
    split at h
    · next hstarts =>
      cases h
      rw [if_pos hstarts]
      obtain ⟨after, rfl, hafter⟩ := hends.exists_of_isPrefixOf (by decide) hstarts
      rw [List.append_assoc, ← String.length_toList, List.drop_left, List.drop_left]
      exact ⟨rfl, hafter⟩
    · next hstarts =>
      rw [if_neg hstarts]
      split at h
      case h_7 hparen hbracket hbrace hparen' hbracket' hbrace' =>
        obtain ⟨⟨t, after⟩, hleaf, heq⟩ := Option.map_eq_some_iff.mp h
        cases heq
        obtain ⟨hread, hrest⟩ := leaf?_append hends hleaf tail
        rw [hread]
        refine ⟨?_, hrest⟩
        -- No bracket comes first on the line, so none does with what follows.
        split
        · next heq => exact absurd heq (append_ne_cons hends hparen tail _)
        · next heq => exact absurd heq (append_ne_cons hends hbracket tail _)
        · next heq => exact absurd heq (append_ne_cons hends hbrace tail _)
        · next heq => exact absurd heq (append_ne_cons hends hparen' tail _)
        · next heq => exact absurd heq (append_ne_cons hends hbracket' tail _)
        · next heq => exact absurd heq (append_ne_cons hends hbrace' tail _)
        · rfl
      -- A bracket is cut off whatever comes after it.
      all_goals
        cases h
        exact ⟨rfl, hends.after (by decide)⟩

/-! ## 3. Whole texts -/

variable {fuel : Nat} {found : List Lexeme}

theorem go_of_blank (hne : text ≠ []) (h : afterBlank? text = some rest) :
    cut.go (fuel + 1) text = cut.go fuel rest := by
  rw [cut.go, h]
  exact hne

theorem go_of_lexemes (hne : text ≠ []) (hblank : afterBlank? text = none)
    (h : lexemes? text = some (found, rest)) :
    cut.go (fuel + 1) text = (cut.go fuel rest).map (found ++ ·) := by
  rw [cut.go, hblank, h]
  exact hne

/-- What a step of cutting that leads to the end does. -/
theorem cases_of_go (h : cut.go (fuel + 1) text = some found) :
    (text = [] ∧ found = []) ∨
      (∃ rest, afterBlank? text = some rest ∧ cut.go fuel rest = some found) ∨
      ∃ first rest others, afterBlank? text = none ∧ lexemes? text = some (first, rest) ∧
        cut.go fuel rest = some others ∧ found = first ++ others := by
  by_cases hne : text = []
  · subst hne
    cases h
    exact .inl ⟨rfl, rfl⟩
  · refine .inr ?_
    -- What is blank is passed over before anything is cut off.
    cases hblank : afterBlank? text with
    | some rest =>
      rw [go_of_blank hne hblank] at h
      exact .inl ⟨rest, rfl, h⟩
    | none =>
      cases hlexemes : lexemes? text with
      | none =>
        rw [cut.go, hblank, hlexemes] at h
        · cases h
        · exact hne
      | some step =>
        obtain ⟨first, rest⟩ := step
        rw [go_of_lexemes hne hblank hlexemes] at h
        obtain ⟨others, hothers, heq⟩ := Option.map_eq_some_iff.mp h
        exact .inr ⟨first, rest, others, rfl, rfl, hothers, heq.symm⟩

/-- A text that ends its lines is cut in front of any text that can be cut, and that one after it. -/
theorem go_append {least : Nat} {tail : List Char} {more : List Lexeme}
    (hends : text = [] ∨ EndsLine text) (h : cut.go (fuel + 1) text = some found)
    (htail : ∀ n, least ≤ n → cut.go n tail = some more) :
    cut.go (fuel + least) (text ++ tail) = some (found ++ more) := by
  induction fuel generalizing text found with
  | zero =>
    -- One step is enough only for the empty text.
    rcases cases_of_go h with ⟨rfl, rfl⟩ | ⟨_, -, hrest⟩ | ⟨_, _, _, -, -, hrest, -⟩
    · exact htail _ (Nat.le_add_left _ _)
    · cases hrest
    · cases hrest
  | succ fuel ih =>
    rcases hends with rfl | hends
    · cases h
      exact htail _ (Nat.le_add_left _ _)
    have hne : text ++ tail ≠ [] := by
      obtain ⟨c, text, rfl⟩ := hends.exists_cons
      exact List.cons_ne_nil _ _
    rw [Nat.add_right_comm]
    rcases cases_of_go h with ⟨rfl, -⟩ | ⟨rest, hblank, hrest⟩ |
      ⟨first, rest, others, hblank, hlexemes, hrest, rfl⟩
    · exact absurd hends EndsLine.not_nil
    · obtain ⟨hread, hafter⟩ := afterBlank?_append hends hblank tail
      rw [go_of_blank hne hread]
      exact ih hafter hrest
    · have hsome : lexemes? text ≠ none := by
        rw [hlexemes]
        exact Option.some_ne_none _
      obtain ⟨hread, hafter⟩ := lexemes?_append hends hlexemes tail
      rw [go_of_lexemes hne (afterBlank?_append_eq_none hends hblank hsome tail) hread,
        ih (.inr hafter) hrest, Option.map_some, List.append_assoc]

theorem cut_append {tail : List Char} {more : List Lexeme} (hends : EndsLine text)
    (h : cut text = some found) (htail : ∀ n, tail.length < n → cut.go n tail = some more) :
    cut (text ++ tail) = some (found ++ more) := by
  unfold cut at h ⊢
  rw [List.length_append, Nat.add_assoc]
  exact go_append (.inr hends) h htail

theorem dropByteOrderMark_append (hends : EndsLine text) (tail : List Char) :
    dropByteOrderMark (text ++ tail) = dropByteOrderMark text ++ tail ∧
      EndsLine (dropByteOrderMark text) := by
  obtain ⟨c, text, rfl⟩ := hends.exists_cons
  by_cases hc : c = '\ufeff'
  · subst hc
    exact ⟨rfl, hends.after (by decide)⟩
  · rw [List.cons_append, dropByteOrderMark_of_ne hc, dropByteOrderMark_of_ne hc]
    exact ⟨rfl, hends⟩

/-- **Comments behind a text change no token of it.** What has tokens and ends its last line has the
same tokens with anything behind it that is not seen. -/
theorem tokens?_append {s : String} {ts : List Token} {ps : List Piece} (hends : EndsLine s.toList)
    (h : tokens? s = some ts) (hps : isApart ps = true) (hnone : lexemesOf ps = []) :
    tokens? (s ++ String.ofList (textOf ps)) = some ts := by
  unfold tokens? at h ⊢
  obtain ⟨hread, hrest⟩ := dropByteOrderMark_append hends (textOf ps)
  obtain ⟨found, hcut, hnest⟩ := Option.bind_eq_some_iff.mp h
  rw [String.toList_append, String.toList_ofList, hread,
    cut_append hrest hcut fun n hn => go_textOf hps hn, Option.bind_some, hnone, List.append_nil]
  exact hnest

end EnumCatalog.Lexer
