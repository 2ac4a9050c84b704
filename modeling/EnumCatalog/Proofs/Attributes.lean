import EnumCatalog.Proofs.Operand

/-!
# Attributes, read forward

What stands in an attribute is a path of names and one of three things after it: arguments between
brackets, an equals sign with a literal, or nothing. Each is read for what it is, wherever it stands
(`reads_read`): between the brackets of an attribute, or as one of the arguments of another.
-/

set_option autoImplicit false

namespace EnumCatalog.Syntax

open Reader Grammar

variable {rest : List Token} {text : String} {m : Meta}

/-! ## 1. Meta items -/

namespace Meta

variable (g : Grammar) (expr : Reader Unit) (p : Path)

theorem reads_readAfter_path (hrest : ClosedBy [','] rest) :
    Reads (readAfter expr p) rest rest (.path p) .empty := by
  refine (reads_ahead rest).andThen ?_
  rw [hrest.not_atAnyGroup, hrest.not_atOp (s := "=") (by decide)]
  exact reads_pure _ rest

theorem reads_readAfter_list (d : Delimiter) (arguments rest : List Token) :
    Reads (readAfter expr p) (.group d arguments :: rest) rest (.list p d arguments) .empty := by
  refine (reads_ahead _).andThen ?_
  exact (reads_anyGroup d arguments rest).silent.andThen (reads_pure _ rest)

/-- An equals sign and a literal make a value, whether the literal comes last or is read as an
expression. -/
theorem reads_readAfter_literal (j : Bool) (hrest : ClosedBy [','] rest) :
    Reads (readAfter (rules (rules g)).value p) (.punct '=' j :: .literal text :: rest) rest
      (.value p (.plain [.literal text])) .empty := by
  refine (reads_ahead _).andThen ?_
  have hequals : (atOp "=" (.punct '=' j :: .literal text :: rest) &&
      !atOp "==" (.punct '=' j :: .literal text :: rest) &&
      !atOp "=>" (.punct '=' j :: .literal text :: rest)) = true := by
    cases j <;> rfl
  rw [if_neg (by simp [atAnyGroup]), if_pos hequals]
  refine Reads.andThen (Reads.silent (reads_op (s := "=") (by cases j <;> rfl) rfl)) ?_
  refine (reads_ahead _).andThen ?_
  split
  · exact (reads_literal text rest).captured.andThen (reads_pure _ rest)
  · refine (reads_require rfl _).andThen ?_
    have hvalue := reads_value_literal g text (hrest.mono (by decide : [','] ⊆ closers))
    exact hvalue.captured.andThen (reads_pure _ rest)

/-- A path of names and what follows it. -/
theorem reads_read {after : List Token} (q : NamePath) (hcolons : atOp "::" after = false)
    (hafter : Reads (readAfter expr q.toPath) after rest m .empty) :
    Reads (read expr) (q.tokens ++ after) rest m m.fragment := by
  refine Reads.printing (f := q.fragment) ((reads_sees _ _).andThen ?_)
  have hword : atWord "unsafe" (q.tokens ++ after) = false := by
    unfold NamePath.tokens
    cases q.leading with
    | true => rfl
    | false =>
      exact Ident.not_isWord_of_isSegment (q.isSegment _ List.mem_cons_self) (by decide)
        (by decide)
  rw [hword]
  exact (NamePath.reads_readPlain q hcolons).before hafter

/-- A meta item that needs no deep grammar to be read. -/
theorem ofTokens?_of_reads {ts : List Token}
    (h : ∀ g, ∃ f, Reads (read (rules (rules g)).value) ts [] m f) : ofTokens? ts = some m := by
  obtain ⟨f, hread⟩ := h (ofDepth (8 * Token.sizeAll ts + 14))
  exact hread.run?

/-- A list of such meta items. -/
theorem listOfTokens?_of_commaList {ts : List Token} {ms : List (Meta × Bool)}
    (h : ∀ g, ∃ f, CommaList (read (rules (rules g)).value) ts ms f) :
    listOfTokens? ts = some (ms.map Prod.fst) := by
  obtain ⟨f, hlist⟩ := h (ofDepth (8 * Token.sizeAll ts + 14))
  exact hlist.reads.map.run?

end Meta

/-! ## 2. Attributes -/

namespace Attribute

variable (expr : Reader Unit)

/-- A round of reading the attributes in front of something. -/
def outerRound : Reader (Option Attribute) := do
  if ← sees (atOp "#") then
    some <$> printing fragment do
      op "#"
      readBracket expr false
  else return none

/-- The attributes in front of something, one after the other. -/
inductive Outer : List Token → List Attribute → Prop
  | nil : Outer [] []
  | cons {inner ts : List Token} {m : Meta} {f : Fragment} {as : List Attribute} (j : Bool)
    (h : Reads (Meta.read expr) inner [] m f) (hs : Outer ts as) :
    Outer (.punct '#' j :: .bracket inner :: ts) (⟨false, m⟩ :: as)

variable {expr} {ts : List Token} {as : List Attribute}

theorem Outer.collects (h : Outer expr ts as) (hrest : atOp "#" rest = false) :
    Collects (outerRound expr) (ts ++ rest) rest as (.concat (as.map fragment)) := by
  induction h with
  | nil =>
    refine .stop ((reads_sees _ rest).andThen ?_)
    rw [hrest]
    exact reads_pure none rest
  | @cons inner ts m f as j h hs ih =>
    have hbracket : Reads (readBracket expr false) (.bracket inner :: (ts ++ rest)) (ts ++ rest)
        ⟨false, m⟩ (f.within .bracket) := (h.inGroup .bracket _).before (reads_pure _ _)
    have hattribute : Reads (do op "#"; readBracket expr false)
        (.punct '#' j :: .bracket inner :: (ts ++ rest)) (ts ++ rest) ⟨false, m⟩ _ :=
      Reads.bind (reads_op (by cases j <;> rfl) rfl) hbracket
    have hround : Reads (outerRound expr) (.punct '#' j :: .bracket inner :: (ts ++ rest))
        (ts ++ rest) (some ⟨false, m⟩) (fragment ⟨false, m⟩) := by
      refine (reads_sees _ _).andThen ?_
      rw [show atOp "#" (.punct '#' j :: .bracket inner :: (ts ++ rest)) = true by cases j <;> rfl]
      exact hattribute.printing.map
    exact Collects.round hround (by simp only [List.length_cons]; omega) ih

/-- The attributes in front of something are read up to what is no attribute. -/
theorem Outer.reads (h : Outer expr ts as) (hrest : atOp "#" rest = false) :
    Reads (readOuter expr) (ts ++ rest) rest as (.concat (as.map fragment)) :=
  (h.collects hrest).reads

end Attribute

end EnumCatalog.Syntax
