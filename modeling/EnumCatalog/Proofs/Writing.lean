import EnumCatalog.Layout
import EnumCatalog.Proofs.Pieces
import EnumCatalog.Proofs.Reading

/-!
# Writing forward

What a document is written as, when it is known which of its groups fit. A pen that has written
pieces of text (`Pen.wrote`) is followed over a document part by part, in the order of the document:
each kind of part has one rule. A group that fits is one part, since no break in it is taken; one
that does not fit is entered.

All pens here are indented so little that every line has the same room.
-/

set_option autoImplicit false

namespace EnumCatalog.Layout

open Lexer (Piece textOf textOf_append lexemesOf flatAll isApart endsWord touchesPunct)
open Syntax (lastComma)
open Text (isBlank)

namespace Doc

/-! ## 1. Without breaks -/

mutual

/-- The text of a piece without breaks. -/
def flatText : Doc → String
  | .text s => s
  | .maybe b => if b.spaced then " " else ""
  | .seam => ""
  | .group _ inner => flatTextAll inner

/-- The text of pieces without breaks. -/
def flatTextAll : List Doc → String
  | [] => ""
  | d :: rest => d.flatText ++ flatTextAll rest

end

theorem flatTextAll_append (ds es : List Doc) :
    flatTextAll (ds ++ es) = flatTextAll ds ++ flatTextAll es := by
  induction ds with
  | nil => simp [flatTextAll]
  | cons d ds ih => rw [List.cons_append, flatTextAll, flatTextAll, ih, String.append_assoc]

@[simp] theorem flatTextAll_texts (words : List String) :
    flatTextAll (words.map .text) = String.join words := by
  induction words with
  | nil => rfl
  | cons w words ih => rw [List.map_cons, flatTextAll, flatText, ih, String.join_cons]

mutual

theorem width_eq (d : Doc) : d.width = d.flatText.utf8ByteSize :=
  match d with
  | .text _ => rfl
  | .maybe ⟨true, _, _⟩ => rfl
  | .maybe ⟨false, _, _⟩ => rfl
  | .seam => rfl
  | .group _ inner => by
    rw [width, flatText]
    exact widthAll_eq inner

/-- The columns of pieces without breaks are the bytes of their text. -/
theorem widthAll_eq (ds : List Doc) : widthAll ds = (flatTextAll ds).utf8ByteSize :=
  match ds with
  | [] => rfl
  | d :: rest => by
    rw [widthAll, flatTextAll, String.utf8ByteSize_append, width_eq d, widthAll_eq rest]

end

end Doc

open Doc

variable {p : Pen} {ps qs : List Piece} {s t : String} {d : Doc} {ds inner rest : List Doc}
  {isFlat deeper : Bool} {indent after used n : Nat}

theorem Pen.write_write (p : Pen) (s t : String) : (p.write s).write t = p.write (s ++ t) := by
  simp [Pen.write, String.append_assoc, Nat.add_assoc]

theorem Pen.write_empty (p : Pen) : p.write "" = p := by
  simp [Pen.write]

mutual

theorem put_flat (d : Doc) (p : Pen) (after : Nat) : put true indent after p d = p.write d.flatText :=
  match d with
  | .text _ => by rw [put, flatText]
  | .maybe _ => by rw [put, flatText, if_pos rfl]
  | .seam => by rw [put, flatText, Pen.write_empty]
  | .group _ inner => by
    rw [put, flatText, Bool.true_or, if_pos rfl]
    exact putAll_flat inner p after

/-- Where no break is taken the text without breaks is written. -/
theorem putAll_flat (ds : List Doc) (p : Pen) (after : Nat) :
    putAll true indent after p ds = p.write (flatTextAll ds) :=
  match ds with
  | [] => by rw [putAll, flatTextAll, Pen.write_empty]
  | d :: rest => by
    rw [putAll, put_flat d, putAll_flat rest, flatTextAll, Pen.write_write]

end

theorem putAll_texts (words : List String) (rest : List Doc) :
    putAll isFlat indent after p (words.map .text ++ rest) =
      putAll isFlat indent after (p.write (String.join words)) rest := by
  induction words generalizing p with
  | nil => rw [List.map_nil, List.nil_append, String.join_nil, Pen.write_empty]
  | cons w words ih =>
    rw [List.map_cons, List.cons_append, putAll, put, ih, Pen.write_write, String.join_cons]

/-! ## 2. Pens that have written pieces -/

/-- The end of a line and the indentation of the next, with a comma before them or not. -/
def lineEnd (comma : Bool) (indent : Nat) : List Piece :=
  (if comma then [.punct ','] else []) ++ .blank '\n' :: List.replicate indent (.blank ' ')

namespace Pen

/-- The pen that has written these pieces, in a line that it has filled up to a column. -/
def wrote (ps : List Piece) (used : Nat) : Pen := ⟨String.ofList (textOf ps), margin, used⟩

theorem textOf_spaces (n : Nat) : textOf (List.replicate n (.blank ' ')) = List.replicate n ' ' := by
  induction n with
  | zero => rfl
  | succ n ih =>
    rw [List.replicate_succ, List.replicate_succ, Lexer.textOf_cons, ih]
    rfl

theorem start_eq (h : n + minimum ≤ margin) : start n = wrote (List.replicate n (.blank ' ')) n := by
  unfold start wrote
  rw [textOf_spaces, Nat.max_eq_left h]

theorem write_wrote (h : s.toList = textOf qs) :
    (wrote ps used).write s = wrote (ps ++ qs) (used + s.utf8ByteSize) := by
  have hs : s = String.ofList (textOf qs) := by rw [← h, String.ofList_toList]
  have hwritten : String.ofList (textOf ps) ++ s = String.ofList (textOf (ps ++ qs)) := by
    rw [textOf_append, String.ofList_append, ← hs]
  unfold wrote write
  rw [hwritten]

theorem breakAt_wrote {b : Break} (hn : (if b.closing then indent - indentation else indent) = n)
    (h : n + minimum ≤ margin) :
    (wrote ps used).breakAt indent b = wrote (ps ++ lineEnd b.comma n) n := by
  have hline : ∀ qs u, (wrote qs u).newLine n = wrote (qs ++ lineEnd false n) n := by
    intro qs u
    unfold newLine
    rw [start_eq h]
    simp only [wrote, lineEnd, Bool.false_eq_true, if_false, List.nil_append, textOf_append,
      String.ofList_append, Lexer.textOf_cons, String.append_assoc]
    rfl
  unfold breakAt
  rw [hn]
  cases hcomma : b.comma with
  | true =>
    have hwritten : ",".toList = textOf [.punct ','] := rfl
    rw [if_pos rfl, write_wrote hwritten, hline, List.append_assoc]
    rfl
  | false =>
    rw [if_neg (by decide)]
    exact hline ps used

end Pen

open Pen

/-! ## 3. Parts of a document -/

theorem putAll_text (h : s.toList = textOf qs) :
    putAll isFlat indent after (Pen.wrote ps used) (.text s :: rest) =
      putAll isFlat indent after (Pen.wrote (ps ++ qs) (used + s.utf8ByteSize)) rest := by
  rw [putAll, put, write_wrote h]

/-- A text that is one piece. -/
theorem putAll_piece (s : String) (x : Piece) (h : s.toList = x.text) :
    putAll isFlat indent after (Pen.wrote ps used) (.text s :: rest) =
      putAll isFlat indent after (Pen.wrote (ps ++ [x]) (used + s.utf8ByteSize)) rest := by
  refine putAll_text ?_
  rw [h, Lexer.textOf_cons, Lexer.textOf_nil, List.append_nil]

theorem putAll_words {words : List String} (h : (String.join words).toList = textOf qs) :
    putAll isFlat indent after (Pen.wrote ps used) (words.map .text ++ rest) =
      putAll isFlat indent after
        (Pen.wrote (ps ++ qs) (used + (String.join words).utf8ByteSize)) rest := by
  rw [putAll_texts, write_wrote h]

theorem putAll_seam : putAll isFlat indent after p (.seam :: rest) =
    putAll isFlat indent after p rest := by
  rw [putAll, put]

/-- A break that is taken. -/
theorem putAll_break {b : Break} (hn : (if b.closing then indent - indentation else indent) = n)
    (h : n + minimum ≤ margin) :
    putAll false indent after (Pen.wrote ps used) (.maybe b :: rest) =
      putAll false indent after (Pen.wrote (ps ++ lineEnd b.comma n) n) rest := by
  rw [putAll, put, if_neg (by decide), breakAt_wrote hn h]

theorem hasRoom_wrote (columns : Nat) :
    (Pen.wrote ps used).hasRoom columns = decide (used + columns ≤ margin) := rfl

/-- A group that fits. -/
theorem putAll_group_of_fits (htext : (flatTextAll inner).toList = textOf qs)
    (h : used + ((flatTextAll inner).utf8ByteSize + lead after rest) ≤ margin) :
    putAll isFlat indent after (Pen.wrote ps used) (.group deeper inner :: rest) =
      putAll isFlat indent after
        (Pen.wrote (ps ++ qs) (used + (flatTextAll inner).utf8ByteSize)) rest := by
  have hroom : (Pen.wrote ps used).hasRoom (widthAll inner + lead after rest) = true := by
    rw [hasRoom_wrote, widthAll_eq]
    exact decide_eq_true h
  rw [putAll, put, hroom, Bool.or_true, if_pos rfl, putAll_flat, write_wrote htext]

/-- A group that does not fit. -/
theorem putAll_group_of_not (hn : (if deeper then indent + indentation else indent) = n)
    (h : margin < used + ((flatTextAll inner).utf8ByteSize + lead after rest)) :
    putAll false indent after (Pen.wrote ps used) (.group deeper inner :: rest) =
      putAll false indent after (putAll false n (lead after rest) (Pen.wrote ps used) inner)
        rest := by
  have hroom : (Pen.wrote ps used).hasRoom (widthAll inner + lead after rest) = false := by
    rw [hasRoom_wrote, widthAll_eq]
    exact decide_eq_false (Nat.not_le.mpr h)
  rw [putAll, put, hroom, Bool.or_false, if_neg (by decide), hn]

theorem putAll_nil : putAll isFlat indent after p [] = p := by
  rw [putAll]

/-- The text of a document whose pen has been followed to its end. -/
theorem toList_render (first : Nat) (hfirst : first + minimum ≤ margin)
    (h : putAll false indent 0 (Pen.wrote (List.replicate first (.blank ' ')) first) ds =
      Pen.wrote ps used) :
    (render first indent ds).toList = textOf (ps ++ [.blank '\n']) := by
  unfold render
  rw [start_eq hfirst, h, String.toList_append, textOf_append]
  show (String.ofList (textOf ps)).toList ++ _ = _
  rw [String.toList_ofList]
  rfl

/-! ## 4. Breaks -/

namespace Break

/-- What is written at a break, in a line that is indented this much. -/
def pieces (b : Break) (taken : Bool) (indent : Nat) : List Piece :=
  if taken then lineEnd b.comma indent else if b.spaced then [.blank ' '] else []

variable (b : Break) (taken : Bool) (n : Nat) (rest : List Piece)

theorem isApart_blank {c : Char} (hc : isBlank c = true) :
    isApart (.blank c :: rest) = isApart rest := by
  rw [isApart, Piece.fits, hc, Bool.true_and]

theorem isApart_spaces : isApart (List.replicate n (.blank ' ') ++ rest) = isApart rest := by
  induction n with
  | zero => rfl
  | succ n ih => rw [List.replicate_succ, List.cons_append, isApart_blank _ (by decide), ih]

theorem lexemesOf_spaces : lexemesOf (List.replicate n (.blank ' ') ++ rest) = lexemesOf rest := by
  induction n with
  | zero => rfl
  | succ n ih =>
    rw [List.replicate_succ, List.cons_append, lexemesOf, ih]
    rfl

@[simp] theorem isApart_pieces : isApart (b.pieces taken n ++ rest) = isApart rest := by
  cases taken with
  | true =>
    have hline : isApart (.blank '\n' :: (List.replicate n (.blank ' ') ++ rest)) = isApart rest := by
      rw [isApart_blank _ (by decide), isApart_spaces]
    show isApart (lineEnd b.comma n ++ rest) = isApart rest
    cases b.comma with
    | true => exact hline
    | false => exact hline
  | false =>
    unfold pieces
    cases b.spaced with
    | true => exact isApart_blank rest (by decide)
    | false => rfl

/-- Of a break that is taken a comma is left if it has one. -/
@[simp] theorem lexemesOf_pieces : lexemesOf (b.pieces taken n ++ rest) =
    flatAll (lastComma (taken && b.comma)) ++ lexemesOf rest := by
  cases taken with
  | true =>
    have hline : lexemesOf (.blank '\n' :: (List.replicate n (.blank ' ') ++ rest)) =
        lexemesOf rest := lexemesOf_spaces n rest
    show lexemesOf (lineEnd b.comma n ++ rest) = _
    cases b.comma with
    | true => exact congrArg (_ :: ·) hline
    | false => exact hline
  | false =>
    unfold pieces
    cases b.spaced <;> rfl

@[simp] theorem endsWord_pieces :
    endsWord (b.pieces taken n ++ rest) = (taken || b.spaced || endsWord rest) := by
  unfold pieces lineEnd
  cases taken <;> cases b.comma <;> cases b.spaced <;> rfl

@[simp] theorem touchesPunct_pieces : touchesPunct (b.pieces taken n ++ rest) =
    if taken then b.comma else !b.spaced && touchesPunct rest := by
  unfold pieces lineEnd
  cases taken <;> cases b.comma <;> cases b.spaced <;> rfl

end Break

/-! ## 5. Lists of one item -/

/-- The inside of a list of one item, which is written without a break. -/
def single (words : List String) : List Doc :=
  .maybe .opening :: (words.map .text ++ [.maybe .last])

theorem flatTextAll_single (words : List String) : flatTextAll (single words) = String.join words := by
  rw [single, flatTextAll, flatTextAll_append, flatTextAll_texts]
  simp [flatText, flatTextAll, Break.opening, Break.last]

/-- The item stands on the line, or on a line of its own with a comma after it. -/
theorem putAll_single {words : List String} {isSpread : Bool}
    (hwords : (String.join words).toList = textOf qs)
    (hspread : isSpread =
      decide (margin < used + ((String.join words).utf8ByteSize + lead after rest)))
    (hn : indent + indentation = n) (h : n + minimum ≤ margin) :
    putAll false indent after (Pen.wrote ps used) (.group true (single words) :: rest) =
      putAll false indent after
        (Pen.wrote (ps ++ (Break.opening.pieces isSpread n ++ (qs ++
          Break.last.pieces isSpread indent)))
          (if isSpread then indent else used + (String.join words).utf8ByteSize)) rest := by
  have hflat := flatTextAll_single words
  -- The layout breaks the group exactly where the item would go past the margin.
  cases isSpread with
  | true =>
    have hbreaks := of_decide_eq_true hspread.symm
    have hopen : (if true then indent + indentation else indent) = n := hn
    have hclose : n - indentation = indent := by omega
    have hindent : indent + minimum ≤ margin := by omega
    rw [putAll_group_of_not hopen (hflat.symm ▸ hbreaks), single,
      putAll_break (n := n) rfl h, putAll_words hwords,
      putAll_break (b := .last) hclose hindent, putAll_nil]
    simp only [Break.pieces, if_true, List.append_assoc]
  | false =>
    have hfits := Nat.not_lt.mp (of_decide_eq_false hspread.symm)
    have htext : (flatTextAll (single words)).toList = textOf qs := by rw [hflat, hwords]
    rw [putAll_group_of_fits htext (by rw [hflat]; exact hfits), hflat]
    simp [Break.pieces, Break.opening, Break.last]

/-! ## 6. Reading what is written -/

/-- Pieces that are read as these tokens, whatever comes after them. -/
structure Spells (ps : List Piece) (ts : List Token) : Prop where
  lexemes : ∀ rest, lexemesOf (ps ++ rest) = flatAll ts ++ lexemesOf rest
  apart : ∀ rest, isApart rest = true → isApart (ps ++ rest) = true

namespace Spells

variable {ts us : List Token}

theorem nil : Spells [] [] := ⟨fun _ => rfl, fun _ h => h⟩

theorem append (h : Spells ps ts) (h' : Spells qs us) : Spells (ps ++ qs) (ts ++ us) where
  lexemes rest := by
    rw [List.append_assoc, h.lexemes, h'.lexemes, Lexer.flatAll_append, List.append_assoc]
  apart rest hrest := by
    rw [List.append_assoc]
    exact h.apart _ (h'.apart _ hrest)

/-- Pieces in braces. -/
theorem braces {before after : List Piece} (h : Spells ps ts)
    (hbefore : Spells before []) (hafter : Spells after []) :
    Spells (.opening .brace :: (before ++ (ps ++ .closing .brace :: after))) [.brace ts] where
  lexemes rest := by
    show Lexer.Lexeme.opening .brace :: lexemesOf (before ++ (ps ++ .closing .brace :: after) ++ rest) =
      .opening .brace :: ((flatAll ts ++ [.closing .brace]) ++ []) ++ lexemesOf rest
    rw [List.append_assoc, hbefore.lexemes, List.append_assoc, h.lexemes]
    show _ :: (_ ++ (_ ++ _ :: lexemesOf (after ++ rest))) = _
    rw [hafter.lexemes]
    simp [flatAll]
  apart rest hrest := by
    have hclose : isApart (.closing .brace :: (after ++ rest)) = true := hafter.apart rest hrest
    show isApart (before ++ (ps ++ .closing .brace :: after) ++ rest) = true
    rw [List.append_assoc, List.append_assoc]
    exact hbefore.apart _ (h.apart _ hclose)

end Spells

/-- A text that is read as these tokens, whatever comes after it. -/
def Writes (s : String) (ts : List Token) : Prop := ∃ ps, s.toList = textOf ps ∧ Spells ps ts

namespace Writes

variable {ts us : List Token}

theorem nil : Writes "" [] := ⟨[], rfl, .nil⟩

theorem append (h : Writes s ts) (h' : Writes t us) : Writes (s ++ t) (ts ++ us) := by
  obtain ⟨ps, htext, hps⟩ := h
  obtain ⟨qs, htext', hqs⟩ := h'
  refine ⟨ps ++ qs, ?_, hps.append hqs⟩
  rw [String.toList_append, htext, htext', textOf_append]

/-- Texts one after the other. -/
theorem join {α : Type} {xs : List α} {φ : α → String} {ψ : α → List Token}
    (h : ∀ x ∈ xs, Writes (φ x) (ψ x)) : Writes (String.join (xs.map φ)) (xs.flatMap ψ) := by
  induction xs with
  | nil => exact nil
  | cons x xs ih =>
    rw [List.map_cons, String.join_cons, List.flatMap_cons]
    exact (h x List.mem_cons_self).append (ih fun y hy => h y (List.mem_cons_of_mem _ hy))

theorem tokens? (h : Writes s ts) : Lexer.tokens? s = some ts := by
  obtain ⟨ps, htext, hps⟩ := h
  have hapart := hps.apart [] rfl
  have hlexemes := hps.lexemes []
  rw [List.append_nil] at hapart
  rw [List.append_nil, show lexemesOf [] = [] from rfl, List.append_nil] at hlexemes
  rw [← String.ofList_toList (s := s), htext]
  exact Lexer.tokens?_textOf hapart hlexemes

end Writes

end EnumCatalog.Layout
