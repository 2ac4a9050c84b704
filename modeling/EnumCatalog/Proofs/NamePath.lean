import EnumCatalog.Proofs.Reading

/-!
# Paths of names

A path whose segments are names, with nothing between angle brackets. The words that lead through
the module tree (`crate`, `self`, `super`, `Self`) count as names here. Such a path is determined by
its names and by whether double colons stand in front, and every rule that reads a path reads it
from its tokens: in attributes (`reads_readPlain`), in types and in expressions (`reads_path`).
-/

set_option autoImplicit false

namespace EnumCatalog

/-! ## 1. Names -/

namespace Ident

variable {i : Ident} {w : String}

@[simp] theorem text_plain (name : String) (h : Text.isIdentText name.toList = true) :
    (plain name h).text = name := rfl

/-- The words that lead through the module tree. -/
def pathWords : List String := ["super", "self", "Self", "crate"]

/-- Whether the identifier can be a segment of a path. -/
def isSegment (i : Ident) : Bool := i.isName || pathWords.any i.isWord

theorem not_isWord_of_isName (h : i.isName = true) (hw : w ∈ reservedWords) :
    i.isWord w = false := by
  unfold isName at h
  unfold isWord
  cases hraw : i.raw with
  | true => rfl
  | false =>
    rw [hraw] at h
    have hname : i.name ≠ w := by
      rintro rfl
      simp [hw] at h
    simpa using hname

theorem not_isWord_of_isWord {w' : String} (h : i.isWord w = true) (hne : w ≠ w') :
    i.isWord w' = false := by
  unfold isWord at h ⊢
  obtain ⟨-, h⟩ := Bool.and_eq_true_iff.mp h
  simp [beq_iff_eq.mp h, hne]

theorem isName_of_isWord (h : i.isWord w = true) (hw : w ∉ reservedWords) : i.isName = true := by
  unfold isWord at h
  obtain ⟨-, h⟩ := Bool.and_eq_true_iff.mp h
  unfold isName
  simp [beq_iff_eq.mp h, hw]

theorem isSegment_of_isName (h : i.isName = true) : i.isSegment = true := by
  rw [isSegment, h, Bool.true_or]

/-- A segment is no keyword apart from those that lead through the module tree. -/
theorem not_isWord_of_isSegment (h : i.isSegment = true) (hw : w ∈ reservedWords)
    (hne : w ∉ pathWords) : i.isWord w = false := by
  unfold isSegment at h
  rcases Bool.or_eq_true_iff.mp h with hname | hword
  · exact not_isWord_of_isName hname hw
  · obtain ⟨w', hw', hi⟩ := List.any_eq_true.mp hword
    unfold isWord at hi ⊢
    simp only [Bool.and_eq_true, beq_iff_eq] at hi
    have hname : i.name ≠ w := by
      rintro rfl
      exact hne (hi.2 ▸ hw')
    simp [hname]

/-- What can be a segment and leads nowhere in the module tree is a name. -/
theorem isName_of_isSegment (h : i.isSegment = true) (hne : pathWords.any i.isWord = false) :
    i.isName = true := by
  unfold isSegment at h
  rw [hne, Bool.or_false] at h
  exact h

end Ident

namespace Syntax

open Reader

/-! ## 2. Paths -/

structure NamePath where
  /-- A double colon stands in front. -/
  leading : Bool
  first : Ident
  others : List Ident
  isSegment : ∀ i ∈ first :: others, i.isSegment = true

/-- A path that does not start from a type in angle brackets. -/
theorem Grammar.reads_qualifiedPath_of_path (g : Grammar) {exprStyle : Bool}
    {ts rest : List Token} {q : Path} {f : Fragment} (hangle : atOp "<" ts = false)
    (hpath : Reads (g.path exprStyle) ts rest q f) :
    Reads (g.qualifiedPath exprStyle) ts rest ⟨none, q⟩ q.fragment := by
  show Reads _ _ _ _ (QualifiedPath.fragment ⟨none, q⟩)
  refine Reads.printing (f := f) ((reads_sees _ ts).andThen ?_)
  rw [hangle]
  exact hpath.before (reads_pure _ rest)

namespace NamePath

/-- The path as the grammar has it. -/
def toPath (p : NamePath) : Path := ⟨p.leading, (p.first :: p.others).map (⟨·, none⟩)⟩

/-- Names with double colons before each. -/
def rooted (names : List Ident) : List Token :=
  names.flatMap fun i => Token.operator [':', ':'] ++ [.ident i]

def tokens (p : NamePath) : List Token :=
  (if p.leading then Token.operator [':', ':'] else []) ++ .ident p.first :: rooted p.others

/-- The path as it prints; it mentions its first name. -/
def fragment (p : NamePath) : Fragment := ⟨p.tokens, [p.first.text]⟩

theorem joined_map (i : Ident) (is : List Ident) :
    Path.joined ((i :: is).map (⟨·, none⟩)) = .plain (.ident i :: rooted is) := by
  induction is generalizing i with
  | nil => rfl
  | cons i' is ih =>
    show Segment.fragment ⟨i, none⟩ ++ Fragment.plain (Token.operator [':', ':']) ++
      Path.joined ((i' :: is).map (⟨·, none⟩)) = _
    rw [ih]
    rfl

@[simp] theorem fragment_toPath (p : NamePath) : p.toPath.fragment = p.fragment := by
  show Fragment.mk [] [p.first.text] ++
    Fragment.plain (if p.leading then Token.operator [':', ':'] else []) ++
    Path.joined ((p.first :: p.others).map (⟨·, none⟩)) = _
  rw [joined_map]
  rfl

/-! ## 3. Reading -/

/-- A path of names is over before these tokens. -/
structure Ends (rest : List Token) : Prop where
  colons : atOp "::" rest = false
  angle : atOp "<" rest = false

variable {rest : List Token}

theorem Ends.nil : Ends [] := ⟨rfl, rfl⟩

theorem Ends.punct {c : Char} (hcolon : c ≠ ':') (hangle : c ≠ '<') (j : Bool)
    (ts : List Token) : Ends (.punct c j :: ts) :=
  ⟨atChars_of_ne hcolon.symm [':'] j ts, atChars_of_ne hangle.symm [] j ts⟩

theorem rooted_cons (i : Ident) (is : List Ident) (ts : List Token) :
    rooted (i :: is) ++ ts = .punct ':' true :: .punct ':' false :: .ident i :: (rooted is ++ ts) :=
  rfl

/-- No arguments follow a name within the path or at its end. -/
theorem not_atArguments (hrest : Ends rest) (exprStyle : Bool) (is : List Ident) :
    Grammar.atArguments exprStyle (rooted is ++ rest) = false := by
  unfold Grammar.atArguments
  cases is with
  | nil =>
    show ((!exprStyle && atOp "<" rest && _ && _) || (atOp "::" rest && _)) = false
    simp [hrest.angle, hrest.colons]
  | cons i is =>
    rw [rooted_cons]
    cases exprStyle <;> rfl

/-- The names after the first are collected one by one by what reads double colons and a name. -/
theorem collects_rooted {α : Type} {r : Reader (Option α)} {v : Ident → α} {is : List Ident}
    (his : ∀ i ∈ is, i.isSegment = true)
    (hround : ∀ i js, i.isSegment = true →
      Reads r (rooted (i :: js) ++ rest) (rooted js ++ rest) (some (v i)) (.plain (rooted [i])))
    (hstop : Reads r rest rest none .empty) :
    Collects r (rooted is ++ rest) rest (is.map v) (.plain (rooted is)) := by
  induction is with
  | nil => exact .stop hstop
  | cons i is ih =>
    have hi := his i List.mem_cons_self
    have hlt : (rooted is ++ rest).length < (rooted (i :: is) ++ rest).length := by
      simp only [rooted_cons, List.length_cons]
      omega
    exact Collects.round (hround i is hi) hlt (ih fun j hj => his j (List.mem_cons_of_mem _ hj))

theorem reads_readIdent {i : Ident} (hi : i.isSegment = true) (ts : List Token) :
    Reads Path.readIdent (.ident i :: ts) ts i (.plain [.ident i]) :=
  (reads_ahead _).andThen ((reads_require hi _).andThen (reads_anyIdent i ts))

theorem reads_colons (ts : List Token) :
    Reads (op "::") (.punct ':' true :: .punct ':' false :: ts) ts ()
      (.plain (Token.operator [':', ':'])) := reads_op rfl rfl

/-- Double colons in front are read if they are there. -/
theorem reads_leading (leading : Bool) (i : Ident) (ts : List Token) :
    Reads (op? "::") ((if leading then Token.operator [':', ':'] else []) ++ .ident i :: ts)
      (.ident i :: ts) leading (.plain (if leading then Token.operator [':', ':'] else [])) := by
  cases leading with
  | true => exact reads_op?_of_at rfl rfl
  | false => exact reads_op?_of_not rfl

/-- An attribute or a visibility reads the path. -/
theorem reads_readPlain (p : NamePath) (hrest : atOp "::" rest = false) :
    Reads Path.readPlain (p.tokens ++ rest) rest p.toPath p.fragment := by
  rw [← fragment_toPath]
  refine Reads.printing (f := .plain p.tokens) ?_
  have hothers : Reads (collect do if ← op? "::" then return some (← Path.readIdent) else return none)
      (rooted p.others ++ rest) rest p.others (.plain (rooted p.others)) := by
    have hround : ∀ i js, i.isSegment = true →
        Reads (do if ← op? "::" then return some (← Path.readIdent) else return none)
          (rooted (i :: js) ++ rest) (rooted js ++ rest) (some i)
          (.plain (Token.operator [':', ':']) ++ .plain [.ident i]) := by
      intro i js hi
      refine Reads.bind (reads_op?_of_at rfl rfl) ?_
      exact (reads_readIdent hi _).before (reads_pure (some i) _)
    have hcollects := collects_rooted (fun i hi => p.isSegment i (List.mem_cons_of_mem _ hi))
      hround ((reads_op?_of_not hrest).andThen (reads_pure none rest))
    rw [List.map_id'] at hcollects
    exact hcollects.reads
  rw [tokens, List.append_assoc, List.cons_append]
  show Reads _ _ _ _ (.plain _ ++ (.plain [.ident p.first] ++ .plain (rooted p.others)))
  refine (reads_leading p.leading p.first _).bind ?_
  refine (reads_readIdent (p.isSegment _ List.mem_cons_self) _).bind ?_
  exact hothers.before (reads_pure _ rest)

variable (g : Grammar) (exprStyle : Bool)

/-- A segment without arguments. -/
theorem reads_segment {i : Ident} (hi : i.isSegment = true) {ts : List Token}
    (hts : Grammar.atArguments exprStyle ts = false) :
    Reads (g.segment exprStyle) (.ident i :: ts) ts ⟨i, none⟩ (.plain [.ident i]) := by
  refine Reads.printing (f := .plain [.ident i]) ?_
  refine (reads_ahead _).andThen ?_
  -- A word for a module stands alone; `Self` and names look for arguments, and find none.
  split
  · exact (reads_anyIdent i ts).before (reads_pure _ _)
  · next hwords =>
    have hident : Reads (if atWord "Self" (.ident i :: ts) then anyIdent else name)
        (.ident i :: ts) ts i (.plain [.ident i]) := by
      split
      · exact reads_anyIdent i ts
      · next hself =>
        refine reads_name (Ident.isName_of_isSegment hi ?_) ts
        simp [atWordIn, atWord, Ident.pathWords] at hwords hself ⊢
        simp [hwords, hself]
    split
    · next hself =>
      rw [if_pos hself] at hident
      refine hident.before ((reads_sees _ _).andThen ?_)
      rw [hts]
      exact reads_pure _ _
    · next hself =>
      rw [if_neg hself] at hident
      refine hident.before ((reads_sees _ _).andThen ?_)
      rw [hts]
      exact reads_pure _ _

theorem reads_moreSegments {is : List Ident} (his : ∀ i ∈ is, i.isSegment = true)
    (hrest : Ends rest) :
    Reads (g.moreSegments exprStyle) (rooted is ++ rest) rest (is.map (⟨·, none⟩))
      (.plain (rooted is)) := by
  refine Collects.reads (collects_rooted his (fun i js hi => ?_) ?_)
  · refine (reads_ahead _).andThen ?_
    rw [if_pos (by rfl)]
    show Reads _ _ _ _ (.plain (Token.operator [':', ':']) ++ .plain [.ident i])
    refine (reads_colons _).bind ?_
    exact (reads_segment g exprStyle hi (not_atArguments hrest exprStyle js)).before
      (reads_pure _ _)
  · refine (reads_ahead _).andThen ?_
    rw [if_neg (by simp [hrest.colons])]
    exact reads_pure none rest

/-- A type or an expression reads the path. -/
theorem reads_path (p : NamePath) (hrest : Ends rest) :
    Reads (g.path exprStyle) (p.tokens ++ rest) rest p.toPath p.fragment := by
  rw [← fragment_toPath]
  refine Reads.printing (f := .plain p.tokens) ?_
  rw [tokens, List.append_assoc, List.cons_append]
  show Reads _ _ _ _ (.plain _ ++ (.plain [.ident p.first] ++ .plain (rooted p.others)))
  refine (reads_leading p.leading p.first _).bind ?_
  refine (reads_segment g exprStyle (p.isSegment _ List.mem_cons_self)
    (not_atArguments hrest exprStyle p.others)).bind ?_
  refine (reads_moreSegments g exprStyle (fun i hi => p.isSegment i (List.mem_cons_of_mem _ hi))
    hrest).before ?_
  exact reads_pure _ rest

/-- The path without anything in front of it. -/
theorem reads_qualifiedPath (p : NamePath) (hrest : Ends rest) :
    Reads (g.qualifiedPath exprStyle) (p.tokens ++ rest) rest ⟨none, p.toPath⟩ p.fragment := by
  have hangle : atOp "<" (p.tokens ++ rest) = false := by
    unfold tokens
    cases p.leading <;> rfl
  rw [← fragment_toPath]
  exact g.reads_qualifiedPath_of_path hangle (reads_path g exprStyle p hrest)

end NamePath

/-! ## 4. Where a path opens -/

/-- A segment of a path is ahead, or the double colons in front of one. -/
inductive OpensPath : List Token → Prop
  | ident {i : Ident} (h : i.isSegment = true) (ts : List Token) : OpensPath (.ident i :: ts)
  | colons (j : Bool) (ts : List Token) : OpensPath (.punct ':' true :: .punct ':' j :: ts)

theorem NamePath.opensPath (p : NamePath) (rest : List Token) : OpensPath (p.tokens ++ rest) := by
  unfold NamePath.tokens
  cases p.leading with
  | true => exact .colons false _
  | false => exact .ident (p.isSegment _ List.mem_cons_self) _

namespace OpensPath

variable {ts : List Token} {w s : String}

theorem not_atWord (h : OpensPath ts) (hw : w ∈ Ident.reservedWords) (hne : w ∉ Ident.pathWords) :
    atWord w ts = false := by
  cases h with
  | ident hi ts => exact Ident.not_isWord_of_isSegment hi hw hne
  | colons j ts => rfl

theorem not_atGroup (h : OpensPath ts) (d : Delimiter) : atGroup d ts = false := by
  cases h <;> rfl

theorem not_atLifetime (h : OpensPath ts) : atLifetime ts = false := by
  cases h <;> rfl

theorem not_atLiteral (h : OpensPath ts) : atLiteral ts = false := by
  cases h with
  | ident hi ts =>
    show (_ || _) = false
    rw [Ident.not_isWord_of_isSegment hi (by decide) (by decide),
      Ident.not_isWord_of_isSegment hi (by decide) (by decide)]
    rfl
  | colons j ts => rfl

theorem not_atOp (h : OpensPath ts) (hs : opensBeside [':'] s = true) : atOp s ts = false := by
  cases h with
  | ident hi ts =>
    unfold opensBeside at hs
    unfold atOp
    split at hs
    · next c cs heq =>
      rw [heq]
      cases cs <;> rfl
    · cases hs
  | colons j ts => exact (closedBy_punct List.mem_cons_self true _).not_atOp hs

theorem atPath (h : OpensPath ts) : (atPathWord ts || atOp "::" ts) = true := by
  cases h with
  | @ident i hi ts =>
    have hi' := hi
    unfold Ident.isSegment at hi'
    show ((i.isName || Ident.pathWords.any i.isWord) || _) = true
    rw [hi']
    rfl
  | colons j ts => rfl

end OpensPath

end Syntax

end EnumCatalog
