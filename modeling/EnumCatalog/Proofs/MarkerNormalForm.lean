import EnumCatalog.Proofs.MarkerText
import EnumCatalog.Proofs.QualifiedPath

/-!
# The normal form of a marker's text

One marker can be written in many ways: with blanks and comments, and with double colons in front or
without. All that counts is the names, in order and with their raw marks. What is accepted as a
marker is what is spelled as a path of at least two names (`Path.parse?_eq_some_iff_spelled`), and
the marker's own text, with nothing but double colons between the names, is one of the texts that
stand for it (`Marker.parse_text`).
-/

set_option autoImplicit false

namespace EnumCatalog

open Syntax Syntax.Reader Syntax.Grammar

/-! ## 1. What is spelled is read -/

namespace Syntax.Path

variable {g : Grammar} {ts : List Token} {p : Path} {i : Ident} {is : List Ident}

/-- Double colons in front of a name open no arguments. -/
theorem Rooted.not_atArguments (h : Rooted ts is) : atArguments false ts = false := by
  cases h with
  | nil => rfl
  | cons j i h => cases j <;> rfl

/-- A name is read as a segment without arguments if none follow. The word `try` is read as the
words that lead through the module tree are. -/
theorem reads_segment (hi : i.isSegment = true ∨ i.isWord "try" = true)
    (hts : atArguments false ts = false) :
    Reads (g.segment false) (.ident i :: ts) ts ⟨i, none⟩ (.plain [.ident i]) := by
  rcases hi with hi | htry
  · exact NamePath.reads_segment g false hi hts
  · refine Reads.printing (f := .plain [.ident i]) ((reads_ahead _).andThen ?_)
    have hword : atWordIn ["super", "self", "crate", "try"] (.ident i :: ts) = true := by
      simp [atWordIn, atWord, htry]
    rw [if_pos hword]
    exact (reads_anyIdent i ts).before (reads_pure _ _)

/-- What reads the segments of a path after the first. -/
def segmentRound (g : Grammar) : Reader (Option Segment) := do
  let ts ← ahead
  if atOp "::" ts && !atGroup .paren (ts.drop 2) then
    op "::"
    return some (← g.segment false)
  else return none

theorem Rooted.collects_segments (h : Rooted ts is)
    (his : ∀ i ∈ is, i.isSegment = true ∨ i.isWord "try" = true) :
    ∃ f, Collects (segmentRound g) ts [] (is.map (⟨·, none⟩)) f := by
  induction h with
  | nil => exact ⟨_, .stop ((reads_ahead []).andThen (reads_pure none []))⟩
  | @cons j i ts is h ih =>
    rw [List.forall_mem_cons] at his
    obtain ⟨f, hf⟩ := ih his.2
    have hcolons : atOp "::" (colons j ++ .ident i :: ts) = true := atOp_colons j _
    have hround : Reads (segmentRound g) (colons j ++ .ident i :: ts) ts (some ⟨i, none⟩)
        (.plain (Token.operator "::".toList) ++ .plain [.ident i]) := by
      refine (reads_ahead _).andThen ?_
      rw [if_pos (by rw [hcolons]; rfl)]
      refine (reads_op hcolons rfl).bind ?_
      exact (reads_segment his.1 h.not_atArguments).before (reads_pure _ ts)
    exact ⟨_, .round hround (by simp [colons]; omega) hf⟩

/-- What is spelled as a path is read as the path. -/
theorem Spelled.reads_path (h : Spelled ts p) : Reads (g.path false) ts [] p p.fragment := by
  obtain ⟨leading, j, first, hrooted, hnames⟩ := h
  rw [List.forall_mem_cons] at hnames
  obtain ⟨f, hfront⟩ := reads_front leading j first _
  obtain ⟨f', hmore⟩ := hrooted.collects_segments (g := g) hnames.2
  refine Reads.printing (f := f ++ (.plain [.ident first] ++ f')) (hfront.bind ?_)
  refine (reads_segment hnames.1 hrooted.not_atArguments).bind ?_
  exact hmore.reads.before (reads_pure _ [])

theorem Spelled.isPlain (h : Spelled ts p) : p.isPlain = true := by
  obtain ⟨leading, j, first, -, -⟩ := h
  simp [Path.isPlain]

/-- A text is read as a path without arguments if and only if its tokens spell the path. -/
theorem parse?_eq_some_iff_spelled {text : String} :
    parse? text = some p ∧ p.isPlain = true ↔
      ∃ ts, Lexer.tokens? text = some ts ∧ Spelled ts p := by
  constructor
  · rintro ⟨h, hplain⟩
    obtain ⟨ts, htokens, hread⟩ := Option.bind_eq_some_iff.mp h
    exact ⟨ts, htokens, spelled_of_run? hread hplain⟩
  · rintro ⟨ts, htokens, hspelled⟩
    refine ⟨?_, hspelled.isPlain⟩
    unfold parse?
    rw [htokens]
    exact hspelled.reads_path.run?

end Syntax.Path

/-! ## 2. Names with double colons between them -/

/-- Names with double colons between them are read as just that. -/
theorem tokens?_intercalate (i : Ident) (is : List Ident) :
    Lexer.tokens? (String.intercalate "::" ((i :: is).map (·.text))) =
      some (.ident i :: NamePath.rooted is) := by
  have hrooted : Lexer.isApart (NamePath.rootedPieces is ++ []) = true ∧
      Lexer.endsWord (NamePath.rootedPieces is ++ []) = true :=
    NamePath.isApart_rootedPieces rfl rfl is
  rw [List.append_nil] at hrooted
  have hapart : Lexer.isApart (.ident i :: NamePath.rootedPieces is) = true :=
    Bool.and_eq_true_iff.mpr ⟨hrooted.2, hrooted.1⟩
  have hlexemes := NamePath.lexemesOf_rootedPieces is []
  rw [List.append_nil, show Lexer.lexemesOf [] = [] from rfl, List.append_nil] at hlexemes
  have htext : String.intercalate "::" ((i :: is).map (·.text)) =
      String.ofList (Lexer.textOf (.ident i :: NamePath.rootedPieces is)) := by
    rw [List.map_cons, intercalate_eq_join, ← String.toList_inj, String.toList_ofList,
      String.toList_append, String.toList_join, NamePath.toList_rootedWords, Lexer.textOf_cons]
    rfl
  rw [htext]
  exact Lexer.tokens?_textOf hapart (congrArg (_ :: ·) hlexemes)

namespace Syntax.Path

theorem rooted_rooted (is : List Ident) : Rooted (NamePath.rooted is) is := by
  induction is with
  | nil => exact .nil
  | cons i is ih => exact .cons false i ih

/-- The names of a path that is spelled spell a path again, the one without double colons in
front. -/
theorem Spelled.intercalate {ts : List Token} {p : Path} (h : Spelled ts p) :
    ∃ ts', Lexer.tokens? (String.intercalate "::" (p.segments.map (·.ident.text))) = some ts' ∧
      Spelled ts' ⟨false, p.segments⟩ := by
  obtain ⟨leading, j, first, -, hnames⟩ := h
  refine ⟨_, ?_, .intro false j first (rooted_rooted _) hnames⟩
  rw [List.map_map]
  exact tokens?_intercalate first _

end Syntax.Path

/-- The identifiers among tokens as they are written, raw marks included. -/
def writtenNames (ts : List Token) : List String :=
  ts.filterMap fun
    | .ident i => some i.text
    | _ => none

namespace Syntax.Path

theorem Rooted.writtenNames_eq {ts : List Token} {is : List Ident} (h : Rooted ts is) :
    writtenNames ts = is.map (·.text) := by
  induction h with
  | nil => rfl
  | cons j i h ih => exact congrArg (i.text :: ·) ih

theorem Spelled.writtenNames_eq {ts : List Token} {p : Path} (h : Spelled ts p) :
    writtenNames ts = p.segments.map (·.ident.text) := by
  obtain ⟨leading, j, first, hrooted, -⟩ := h
  have hnames := congrArg (first.text :: ·) hrooted.writtenNames_eq
  rw [List.map_map]
  cases leading with
  | true => exact hnames
  | false => exact hnames

end Syntax.Path

/-! ## 3. Markers -/

namespace Marker

variable {text : String} {m : Marker}

/-- What is accepted as a marker is what is spelled as a path of at least two names, which are those
of the marker. -/
theorem parse_eq_ok_iff : parse text = .ok m ↔
    ∃ ts p, Lexer.tokens? text = some ts ∧ Path.Spelled ts p ∧ 2 ≤ p.segments.length ∧
      m.segments = p.segments.map (·.ident.text) := by
  constructor
  · intro h
    obtain ⟨p, hp, hlength, hplain, hm⟩ := parse_eq_ok h
    obtain ⟨ts, htokens, hspelled⟩ := Path.parse?_eq_some_iff_spelled.mp ⟨hp, hplain⟩
    exact ⟨ts, p, htokens, hspelled, hlength, hm⟩
  · rintro ⟨ts, p, htokens, hspelled, hlength, hm⟩
    obtain ⟨hp, hplain⟩ := Path.parse?_eq_some_iff_spelled.mpr ⟨ts, htokens, hspelled⟩
    rw [parse_of_path hp hlength hplain, ← hm]

/-- The names of a marker are those that are written in the text. -/
theorem segments_eq_writtenNames {ts : List Token} (h : parse text = .ok m)
    (hts : Lexer.tokens? text = some ts) : m.segments = writtenNames ts := by
  obtain ⟨ts', p, htokens, hspelled, -, hm⟩ := parse_eq_ok_iff.mp h
  rw [hts] at htokens
  rw [hm, Option.some.inj htokens, hspelled.writtenNames_eq]

/-- The marker's own text stands for it. -/
theorem parse_text (h : parse text = .ok m) : parse m.text = .ok m := by
  obtain ⟨ts, p, -, hspelled, hlength, hm⟩ := parse_eq_ok_iff.mp h
  obtain ⟨ts', htokens, hspelled'⟩ := hspelled.intercalate
  refine parse_eq_ok_iff.mpr ⟨ts', _, ?_, hspelled', hlength, hm⟩
  rw [Marker.text, hm]
  exact htokens

/-- Markers have a normal form. A text is accepted if and only if it is spelled as a path of at
least two names, which is to say that it is read as such a path and no segment has arguments. The
text of a marker is accepted again and gives the same marker, with the same crate. And two texts
that are accepted give the same marker if and only if the same names are written in them in the
same order. -/
theorem parse_normalForm :
    (∀ text m, parse text = .ok m ↔
      ∃ ts p, Lexer.tokens? text = some ts ∧ Path.Spelled ts p ∧ 2 ≤ p.segments.length ∧
        m.segments = p.segments.map (·.ident.text)) ∧
      (∀ text p, (∃ ts, Lexer.tokens? text = some ts ∧ Path.Spelled ts p) ↔
        Path.parse? text = some p ∧ ∀ s ∈ p.segments, s.args = none) ∧
      (∀ text m, parse text = .ok m →
        parse m.text = .ok m ∧ (parse m.text).map crateName = .ok m.crateName) ∧
      ∀ text text' m m', parse text = .ok m → parse text' = .ok m' →
        ∃ ts ts', Lexer.tokens? text = some ts ∧ Lexer.tokens? text' = some ts' ∧
          (m = m' ↔ writtenNames ts = writtenNames ts') := by
  refine ⟨fun text m => parse_eq_ok_iff, fun text p => ?_, fun text m h => ?_, ?_⟩
  · have hplain : (∀ s ∈ p.segments, s.args = none) ↔ p.isPlain = true := by
      simp [Path.isPlain]
    rw [hplain]
    exact Path.parse?_eq_some_iff_spelled.symm
  · exact ⟨parse_text h, by rw [parse_text h]; rfl⟩
  · intro text text' m m' h h'
    -- A marker consists of the names that are written, so it is compared by them.
    obtain ⟨ts, -, hts, -⟩ := parse_eq_ok_iff.mp h
    obtain ⟨ts', -, hts', -⟩ := parse_eq_ok_iff.mp h'
    refine ⟨ts, ts', hts, hts', ?_⟩
    rw [← segments_eq_writtenNames h hts, ← segments_eq_writtenNames h' hts']
    obtain ⟨names⟩ := m
    obtain ⟨names'⟩ := m'
    exact Marker.mk.injEq names names' ▸ Iff.rfl

/-- Blanks and double colons in front are left out, a raw mark stays. -/
theorem parse_normalForm_raw :
    parse ":: a /* of */ :: r#type" = .ok ⟨["a", "r#type"]⟩ ∧
      (Marker.mk ["a", "r#type"]).text = "a::r#type" ∧
      parse "a::r#type" = .ok ⟨["a", "r#type"]⟩ ∧
      (parse "a::r#type").map crateName = .ok "a" := by
  have hspaced : parse ":: a /* of */ :: r#type" = .ok ⟨["a", "r#type"]⟩ := by decide +kernel
  have htext : (Marker.mk ["a", "r#type"]).text = "a::r#type" := by decide
  obtain ⟨-, -, hback, -⟩ := parse_normalForm
  obtain ⟨hparse, hcrate⟩ := hback _ _ hspaced
  rw [htext] at hparse hcrate
  exact ⟨hspaced, htext, hparse, hcrate⟩

end Marker

end EnumCatalog
