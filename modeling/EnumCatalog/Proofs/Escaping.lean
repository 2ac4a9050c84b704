import EnumCatalog.Token.Lexer
import EnumCatalog.Token.Literal

/-!
# Escapes are undone

`Text.quoted` writes a literal whose value is the text it was given. Three machines look at such a
literal: the lexer finds its end (`afterQuoted_literalChars`), the reader of literals gives back the
text (`stringValue?_quoted`), and a comment line that quotes anything stays one line
(`newline_not_mem_commented`). The first two go through the text one character at a time, and both
meet one of four forms of each (`Escapes`), so the form is what the cases are split on.
-/

set_option autoImplicit false

namespace EnumCatalog.Text

/-! ## 1. Numbers in base sixteen -/

/-- The number that digits stand for, after what has been read before them. -/
def fromDigits (value : Nat) (digits : List Nat) : Nat := digits.foldl (fun v d => v * 16 + d) value

theorem exists_digits (n : Nat) :
    ∃ ds : List Nat, hexDigits n = ds.map Nat.digitChar ∧ (∀ d ∈ ds, d < 16) ∧
      fromDigits 0 ds = n := by
  induction n using Nat.strongRecOn with
  | ind n ih =>
    by_cases hn : n < 16
    · refine ⟨[n], ?_, by simpa using hn, by simp [fromDigits]⟩
      exact Nat.toDigits_of_lt_base hn
    · obtain ⟨ds, htext, hlt, hvalue⟩ := ih (n / 16) (by omega)
      have hmod : n % 16 < 16 := Nat.mod_lt n (by decide)
      refine ⟨ds ++ [n % 16], ?_, ?_, ?_⟩
      · unfold hexDigits at htext ⊢
        rw [Nat.toDigits_of_base_le (by decide) (by omega), htext]
        simp
      · intro d hd
        rcases List.mem_append.mp hd with hd | hd
        · exact hlt d hd
        · rw [List.mem_singleton.mp hd]
          exact hmod
      · unfold fromDigits at hvalue ⊢
        rw [List.foldl_append, hvalue]
        simp only [List.foldl_cons, List.foldl_nil]
        omega

theorem digit?_digitChar {d : Nat} (h : d < 16) : Literal.digit? 16 d.digitChar = some d := by
  revert d
  decide

theorem isHex_digitChar {d : Nat} (h : d < 16) : Lexer.isHex d.digitChar = true := by
  revert d
  decide

theorem hexDigit_digitChar {d : Nat} (h : d < 16) : Lexer.hexDigit d.digitChar = d := by
  revert d
  decide

theorem digitChar_ne_brace {d : Nat} (h : d < 16) : d.digitChar ≠ '\x7d' := by
  revert d
  decide

theorem hexValue_hexDigits (n : Nat) : Literal.hexValue (hexDigits n) = n := by
  obtain ⟨ds, htext, hlt, hvalue⟩ := exists_digits n
  rw [htext, ← hvalue]
  unfold Literal.hexValue fromDigits
  rw [List.foldl_map]
  clear htext hvalue
  generalize 0 = v
  induction ds generalizing v with
  | nil => rfl
  | cons d ds ih =>
    simp only [List.foldl_cons, digit?_digitChar (hlt d List.mem_cons_self), Option.elim_some]
    exact ih (fun d' hd => hlt d' (List.mem_cons_of_mem _ hd)) _

theorem brace_not_mem_hexDigits (n : Nat) : '\x7d' ∉ hexDigits n := by
  obtain ⟨ds, htext, hlt, -⟩ := exists_digits n
  rw [htext]
  intro h
  obtain ⟨d, hd, heq⟩ := List.mem_map.mp h
  exact digitChar_ne_brace (hlt d hd) heq

theorem length_hexDigits_toNat (c : Char) : (hexDigits c.toNat).length ≤ 6 := by
  refine (Nat.length_toDigits_le_iff (by decide) (by decide)).mpr ?_
  have h := c.valid
  simp only [UInt32.isValidChar, Nat.isValidChar] at h
  show c.val.toNat < _
  omega

/-! ## 2. The forms of an escape -/

/-- A character of a text as it stands in a string literal. -/
inductive Escapes : Char → List Char → Prop
  | plain {c : Char} (hquote : c ≠ '"') (hslash : c ≠ '\\') (hcr : c ≠ '\r') : Escapes c [c]
  | simple {k c : Char} (h : (k, c) ∈ Literal.escapes) : Escapes c ['\\', k]
  /-- NUL in front of a digit. -/
  | nul : Escapes '\x00' ['\\', 'x', '0', '0']
  | code (c : Char) : Escapes c (codeEscape c)

theorem escapes_literalChar (c : Char) : Escapes c (literalChar c) := by
  unfold literalChar
  split
  · next h => exact .simple (by simp_all [Literal.escapes])
  · split
    · next h => exact .simple (by simp_all [Literal.escapes])
    · next hcr =>
      split
      · next h => exact .simple (by simp_all [Literal.escapes])
      · split
        · next h =>
          rcases Bool.or_eq_true_iff.mp h with h | h
          · exact .simple (by simp_all [Literal.escapes])
          · exact .simple (by simp_all [Literal.escapes])
        · next h =>
          split
          · exact .plain (by simp_all) (by simp_all) (by simp_all)
          · exact .code c

/-- The inside of a literal is the escapes of the characters one after the other. -/
theorem literalChars_cons (c : Char) (cs : List Char) :
    ∃ e, Escapes c e ∧ literalChars (c :: cs) = e ++ literalChars cs := by
  rw [literalChars]
  split
  · next h =>
    obtain rfl : c = '\x00' := by simpa using h
    refine ⟨_, ?_, rfl⟩
    split
    · exact .nul
    · exact .simple (by decide)
  · exact ⟨_, escapes_literalChar c, rfl⟩

theorem Escapes.length_pos {c : Char} {e : List Char} (h : Escapes c e) : 1 ≤ e.length := by
  cases h <;> simp [codeEscape]

theorem length_le_length_literalChars (cs : List Char) : cs.length ≤ (literalChars cs).length := by
  induction cs with
  | nil => exact Nat.le_refl 0
  | cons c cs ih =>
    obtain ⟨e, he, heq⟩ := literalChars_cons c cs
    have hpos := he.length_pos
    rw [heq, List.length_append, List.length_cons]
    omega

/-! ## 3. The value of a literal -/

theorem cookedFrom_escape {c : Char} {e : List Char} (h : Escapes c e) (n : Nat)
    (rest : List Char) :
    Literal.cookedFrom (n + 1) (e ++ rest) = c :: Literal.cookedFrom n rest := by
  cases h with
  | plain hquote hslash hcr =>
    show Literal.cookedFrom (n + 1) (c :: rest) = _
    rw [Literal.cookedFrom] <;> simp_all
  | simple h =>
    simp only [Literal.escapes, List.mem_cons, Prod.mk.injEq, List.not_mem_nil, or_false] at h
    rcases h with ⟨rfl, rfl⟩ | ⟨rfl, rfl⟩ | ⟨rfl, rfl⟩ | ⟨rfl, rfl⟩ | ⟨rfl, rfl⟩ | ⟨rfl, rfl⟩ |
      ⟨rfl, rfl⟩ <;> rfl
  | nul => rfl
  | code =>
    -- The digits go up to the brace that closes them.
    have htake : (hexDigits c.toNat ++ '\x7d' :: rest).takeWhile (· != '\x7d') =
        hexDigits c.toNat := by
      rw [List.takeWhile_append_of_pos]
      · simp
      · intro d hd
        have hne : d ≠ '\x7d' := fun heq => brace_not_mem_hexDigits c.toNat (heq ▸ hd)
        simpa using hne
    show Literal.cookedFrom (n + 1)
      ('\\' :: 'u' :: '\x7b' :: (hexDigits c.toNat ++ ['\x7d'] ++ rest)) = _
    rw [List.append_assoc, List.singleton_append]
    rw [Literal.cookedFrom]
    simp [htake, hexValue_hexDigits]

theorem cookedFrom_literalChars (cs : List Char) (n : Nat) (hn : cs.length ≤ n) :
    Literal.cookedFrom (n + 1) (literalChars cs ++ ['"']) = cs := by
  induction cs generalizing n with
  | nil => rfl
  | cons c cs ih =>
    obtain ⟨e, he, heq⟩ := literalChars_cons c cs
    cases n with
    | zero => simp at hn
    | succ n =>
      rw [heq, List.append_assoc, cookedFrom_escape he, ih n (by simpa using hn)]

/-- The value of a literal is the text that it was made for. -/
@[simp] theorem stringValue?_quoted (s : String) : Literal.stringValue? (quoted s) = some s := by
  have hle := length_le_length_literalChars s.toList
  have hvalue := cookedFrom_literalChars s.toList (literalChars s.toList).length hle
  unfold Literal.stringValue? quoted
  simp only [String.toList_ofList, List.cons_append, List.length_append, List.length_singleton]
  rw [hvalue, String.ofList_toList]

/-! ## 4. The end of a literal -/

section

open Lexer

variable {rest : List Char}

/-- The digits of an escape by code point are read up to the brace. -/
theorem afterQuoted_digits {ds : List Nat} (hlt : ∀ d ∈ ds, d < 16) (count value : Nat)
    (hcount : count + ds.length ≤ 6) :
    afterQuoted textRule (.digits count value) (ds.map Nat.digitChar ++ rest) =
      afterQuoted textRule (.digits (count + ds.length) (fromDigits value ds)) rest := by
  induction ds generalizing count value with
  | nil => rfl
  | cons d ds ih =>
    have hd := hlt d List.mem_cons_self
    have hne : (count == 6) = false := by
      simp only [List.length_cons] at hcount
      exact beq_false_of_ne (by omega)
    have hstep : quoteStep textRule (.digits count value) d.digitChar =
        .next (.digits (count + 1) (value * 16 + d)) := by
      simp [quoteStep, isHex_digitChar hd, hexDigit_digitChar hd, hne]
    rw [List.map_cons, List.cons_append, afterQuoted, hstep]
    simp only
    rw [ih (fun d' h => hlt d' (List.mem_cons_of_mem _ h)) _ _ (by simp at hcount; omega)]
    have hlength : count + 1 + ds.length = count + (d :: ds).length := by
      simp only [List.length_cons]
      omega
    rw [hlength]
    rfl

theorem isScalar_toNat (c : Char) : isScalar c.toNat = true := by
  have h := c.valid
  unfold isScalar
  simp only [UInt32.isValidChar, Nat.isValidChar] at h
  show (decide (c.val.toNat < 0xD800) ||
    (decide (0xDFFF < c.val.toNat) && decide (c.val.toNat < 0x110000))) = true
  simpa using h

theorem afterQuoted_code (c : Char) :
    afterQuoted textRule .plain (codeEscape c ++ rest) = afterQuoted textRule .plain rest := by
  obtain ⟨ds, htext, hlt, hvalue⟩ := exists_digits c.toNat
  have hlength : ds.length ≤ 6 := by
    have h := length_hexDigits_toNat c
    rw [htext, List.length_map] at h
    exact h
  have hpos : ds ≠ [] := by
    rintro rfl
    exact Nat.toDigits_ne_nil htext
  have hclose : quoteStep textRule (.digits ds.length c.toNat) '\x7d' = .next .plain := by
    have hnum : (ds.length == 0) = false := beq_false_of_ne (by simpa using hpos)
    have hhex : isHex '\x7d' = false := by decide
    simp [quoteStep, hhex, hnum, textRule, isScalar_toNat]
  show afterQuoted textRule (.digits 0 0) (hexDigits c.toNat ++ ['\x7d'] ++ rest) = _
  rw [List.append_assoc, htext, afterQuoted_digits hlt 0 0 (by omega), hvalue, Nat.zero_add,
    List.singleton_append, afterQuoted, hclose]

/-- An escape leaves the lexer where it was. -/
theorem afterQuoted_escape {c : Char} {e : List Char} (h : Escapes c e) :
    afterQuoted textRule .plain (e ++ rest) = afterQuoted textRule .plain rest := by
  cases h with
  | plain hquote hslash hcr =>
    have hstep : quoteStep textRule .plain c = .next .plain := by
      simp [quoteStep, plainStep, hquote, hslash, hcr, textRule]
    show afterQuoted textRule .plain (c :: rest) = _
    rw [afterQuoted, hstep]
  | simple h =>
    simp only [Literal.escapes, List.mem_cons, Prod.mk.injEq, List.not_mem_nil, or_false] at h
    rcases h with ⟨rfl, rfl⟩ | ⟨rfl, rfl⟩ | ⟨rfl, rfl⟩ | ⟨rfl, rfl⟩ | ⟨rfl, rfl⟩ | ⟨rfl, rfl⟩ |
      ⟨rfl, rfl⟩ <;> rfl
  | nul => rfl
  | code => exact afterQuoted_code c

/-- The quote that closes a literal is the first one that the lexer takes for it. -/
theorem afterQuoted_literalChars (cs : List Char) :
    afterQuoted textRule .plain (literalChars cs ++ '"' :: rest) = some rest := by
  induction cs with
  | nil => rfl
  | cons c cs ih =>
    obtain ⟨e, he, heq⟩ := literalChars_cons c cs
    rw [heq, List.append_assoc, afterQuoted_escape he, ih]

end

/-! ## 5. Comment lines -/

theorem not_isControl_of_mem_codeEscape {c d : Char} (h : d ∈ codeEscape c) :
    isControl d = false := by
  have hframe : ∀ d ∈ ['\\', 'u', '\x7b'] ++ ['\x7d'], isControl d = false := by simp [isControl]
  have hdigit : ∀ n : Nat, n < 16 → isControl n.digitChar = false := by decide
  obtain ⟨ds, htext, hlt, -⟩ := exists_digits c.toNat
  rw [codeEscape, htext, List.mem_append, List.mem_append] at h
  rcases h with (h | h) | h
  · exact hframe d (List.mem_append_left _ h)
  · obtain ⟨n, hn, rfl⟩ := List.mem_map.mp h
    exact hdigit n (hlt n hn)
  · exact hframe d (List.mem_append_right _ h)

/-- What a control character is escaped with are no control characters. -/
theorem not_isControl_of_mem_commentChar {c d : Char} (h : d ∈ commentChar c) :
    isControl d = false := by
  have hescape {e : Char} (he : isControl e = false) (h : d ∈ ['\\', e]) : isControl d = false := by
    rcases List.mem_cons.mp h with rfl | h
    · rfl
    · rwa [List.mem_singleton.mp h]
  unfold commentChar at h
  split at h
  · exact hescape rfl h
  · split at h
    · exact hescape rfl h
    · split at h
      · exact hescape rfl h
      · split at h
        · exact not_isControl_of_mem_codeEscape h
        · next hc =>
          rw [List.mem_singleton.mp h]
          exact Bool.eq_false_iff.mpr hc

/-- Whatever is quoted in a comment line, no control character is left in it. -/
theorem not_isControl_of_mem_commented {s : String} {c : Char} (h : c ∈ (commented s).toList) :
    isControl c = false := by
  rw [commented, String.toList_ofList] at h
  obtain ⟨d, -, hc⟩ := List.mem_flatMap.mp h
  exact not_isControl_of_mem_commentChar hc

/-- Whatever is quoted in a comment line, the line does not end in it. -/
theorem newline_not_mem_commented (s : String) : '\n' ∉ (commented s).toList := fun h =>
  absurd (not_isControl_of_mem_commented h) (by decide)

theorem commentChar_of_not_control {c : Char} (h : isControl c = false) : commentChar c = [c] := by
  have hne (k : Char) (hk : isControl k = true) : (c == k) = false := by
    rw [beq_eq_false_iff_ne]
    rintro rfl
    rw [hk] at h
    cases h
  simp [commentChar, h, hne '\t' rfl, hne '\r' rfl, hne '\n' rfl]

/-- What has no control characters is quoted as it is. -/
theorem commented_eq_self {s : String} (h : ∀ c ∈ s.toList, isControl c = false) :
    commented s = s := by
  suffices hall : s.toList.flatMap commentChar = s.toList by
    rw [commented, hall, String.ofList_toList]
  generalize s.toList = cs at h
  induction cs with
  | nil => rfl
  | cons c cs ih =>
    rw [List.forall_mem_cons] at h
    rw [List.flatMap_cons, commentChar_of_not_control h.1, ih h.2, List.singleton_append]

end EnumCatalog.Text
