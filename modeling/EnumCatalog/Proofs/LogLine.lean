import EnumCatalog.Artifact
import EnumCatalog.Proofs.Escaping

/-!
# The first line of a log

The log of a pass starts with the number of candidates and the number of files. Where the log goes
into the artifact, the artifact can be told by that line: logs that are shown alike are logs of
passes over as many files (`Artifact.files_eq_of_diagnosticsText`).
-/

set_option autoImplicit false

namespace EnumCatalog

/-- Lists that go on behind the first occurrence of something are equal up to there. -/
theorem eq_of_append_cons_eq {α : Type} {as bs cs ds : List α} {x : α} (ha : x ∉ as) (hc : x ∉ cs)
    (h : as ++ x :: bs = cs ++ x :: ds) : as = cs := by
  rcases List.append_eq_append_iff.mp h with ⟨ms, rfl, hms⟩ | ⟨ms, rfl, hms⟩
  · cases ms with
    | nil => rw [List.append_nil]
    | cons m ms => exact absurd (by rw [(List.cons.inj hms).1]; simp) hc
  · cases ms with
    | nil => rw [List.append_nil]
    | cons m ms => exact absurd (by rw [(List.cons.inj hms).1]; simp) ha

namespace Note

theorem isDigit_of_mem_repr {n : Nat} {c : Char} (h : c ∈ (Nat.repr n).toList) :
    c.isDigit = true := by
  rw [Nat.toList_repr] at h
  exact Nat.isDigit_of_mem_toDigits (by decide) (by decide) h

theorem text_found (c n : Nat) : (Note.found c n).text =
    Nat.repr c ++ " candidate enum(s) in " ++ Nat.repr n ++ " file(s)" := rfl

/-- The line with the numbers of candidates and files shows the number of files. -/
theorem files_eq_of_text_found {c n c' n' : Nat}
    (h : (Note.found c n).text = (Note.found c' n').text) : n = n' := by
  rw [text_found, text_found, String.append_left_inj] at h
  have hdigits (k : Nat) : ' ' ∉ (Nat.repr k).toList.reverse := fun hmem =>
    absurd (isDigit_of_mem_repr (List.mem_reverse.mp hmem)) (by decide)
  -- Read from its end, it has the digits of the number and then a blank.
  have hrev := congrArg (List.reverse ∘ String.toList) h
  simp only [Function.comp_apply, String.toList_append, List.reverse_append, String.reduceToList,
    List.reverse_cons, List.reverse_nil, List.nil_append, List.cons_append] at hrev
  have hlist := List.reverse_inj.mp (eq_of_append_cons_eq (hdigits n) (hdigits n') hrev)
  rw [Nat.toList_repr, Nat.toList_repr] at hlist
  rw [← Nat.ofDigitChars_ten_toDigits (n := n), hlist, Nat.ofDigitChars_ten_toDigits]

theorem commented_text_found (c n : Nat) :
    Text.commented (Note.found c n).text = (Note.found c n).text := by
  refine Text.commented_eq_self fun k hk => ?_
  have hdigit {m : Nat} {k : Char} (h : k ∈ (Nat.repr m).toList) : Text.isControl k = false := by
    have hd := isDigit_of_mem_repr h
    simp only [Char.isDigit, Bool.and_eq_true, decide_eq_true_eq, Text.isControl] at hd ⊢
    have h₁ : 48 ≤ k.toNat := hd.1
    have h₂ : k.toNat ≤ 57 := hd.2
    simp
    omega
  have hwords : (" candidate enum(s) in ".toList ++ " file(s)".toList).all
      (!Text.isControl ·) = true := by
    decide
  rw [List.all_eq_true] at hwords
  rw [text_found] at hk
  simp only [String.toList_append, List.mem_append] at hk
  rcases hk with ((hk | hk) | hk) | hk
  · exact hdigit hk
  · simpa using hwords k (List.mem_append_left _ hk)
  · exact hdigit hk
  · simpa using hwords k (List.mem_append_right _ hk)

end Note

/-- Logs that are shown alike have the same first line. -/
theorem Artifact.commented_eq_of_diagnosticsText {line line' : String} {lines lines' : List String}
    (h : diagnosticsText (line :: lines) = diagnosticsText (line' :: lines')) :
    Text.commented line = Text.commented line' := by
  have hlines (line : String) (lines : List String) : (diagnosticsText (line :: lines)).toList =
      "\n// pgenum-build diagnostics:\n//   ".toList ++ ((Text.commented line).toList ++ '\n' ::
        (linesText (lines.map fun line => "//   " ++ Text.commented line)).toList) := by
    simp [diagnosticsText, linesText, String.join_cons]
  have hlist := congrArg String.toList h
  rw [hlines, hlines, List.append_cancel_left_eq] at hlist
  exact String.toList_inj.mp (eq_of_append_cons_eq (Text.newline_not_mem_commented line)
    (Text.newline_not_mem_commented line') hlist)

/-- Logs that are shown alike are of passes over as many files. -/
theorem Artifact.files_eq_of_diagnosticsText {c n c' n' : Nat} {lines lines' : List String}
    (h : diagnosticsText ((Note.found c n).text :: lines) =
      diagnosticsText ((Note.found c' n').text :: lines')) : n = n' := by
  have hline := commented_eq_of_diagnosticsText h
  rw [Note.commented_text_found, Note.commented_text_found] at hline
  exact Note.files_eq_of_text_found hline

end EnumCatalog
