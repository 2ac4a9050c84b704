import EnumCatalog.Artifact
import EnumCatalog.Expansion
import EnumCatalog.Proofs.Attributes
import EnumCatalog.Proofs.Escaping
import EnumCatalog.Proofs.Parsing
import Mathlib.Data.List.Basic

/-!
# What a tag says, read twice

The arguments of a tag are read by two readers that have nothing in common. The expansion takes a
name, an equals sign and a literal; the extraction takes a list of meta items, whose values are
expressions. Where the expansion accepts, the two agree on the database name
(`Expansion.ofTokens_agrees`), so what generated code registers a type under is what the type's
implementation answers.

The expansion is followed backwards, from its answer to the only arguments that lead there
(`arguments_eq_ok`), and the extraction forward on these.
-/

set_option autoImplicit false

namespace EnumCatalog

open Syntax (Attribute Fragment Grammar Item Meta NamePath Path Reader)

/-! ## 1. The only arguments that are accepted -/

namespace Expansion

open Syntax.Reader

variable {ts rest : List Token} {text : String}

theorem eq_of_op?_eq_false {s : String} {c c' : Syntax.Cursor} (h : op? s c = some (false, c')) :
    c' = c := by
  change (if Syntax.atOp s c.rest then (do op s; return true) else pure false : Reader Bool) c = _ at h
  split at h
  · obtain ⟨⟨_, _⟩, _, h⟩ := Option.bind_eq_some_iff.mp h
    cases h
  · cases h
    rfl

theorem eq_of_collect_eq_nil {α : Type} {r : Reader (Option α)} {c c' : Syntax.Cursor}
    (h : collect r c = some ([], c')) : r c = some (none, c') := by
  obtain ⟨⟨a?, c₁⟩, hr, h⟩ := Option.bind_eq_some_iff.mp h
  cases a? with
  | none =>
    cases h
    exact hr
  | some a =>
    obtain ⟨⟨as, c₂⟩, -, h⟩ := Option.bind_eq_some_iff.mp h
    cases h

/-- A name that is one word is the first token. -/
theorem argumentName_eq_some {p : Path} {c : Syntax.Cursor} {w : String}
    (h : StateT.run argumentName (start ts) = some (p, c)) (hw : p.isWord w = true) :
    ∃ i : Ident, i.isWord w = true ∧ ts = .ident i :: c.rest := by
  obtain ⟨⟨leading, c₁⟩, hleading, h⟩ := Option.bind_eq_some_iff.mp h
  obtain ⟨⟨first, c₂⟩, hfirst, h⟩ := Option.bind_eq_some_iff.mp h
  obtain ⟨⟨others, c₃⟩, hothers, h⟩ := Option.bind_eq_some_iff.mp h
  cases h
  -- A word has no colons before it and no other names after it.
  cases leading with
  | true => cases hw
  | false =>
    cases others with
    | cons i is => cases hw
    | nil =>
      have hround := eq_of_collect_eq_nil hothers
      obtain ⟨⟨more, c₄⟩, hmore, hround⟩ := Option.bind_eq_some_iff.mp hround
      cases more with
      | true =>
        obtain ⟨⟨_, _⟩, _, hround⟩ := Option.bind_eq_some_iff.mp hround
        cases hround
      | false =>
        cases hround
        refine ⟨first, hw, ?_⟩
        rw [eq_of_op?_eq_false hmore, ← rest_of_anyIdent hfirst, eq_of_op?_eq_false hleading]
        rfl

theorem rest_of_op_equals {c c' : Syntax.Cursor} (h : op "=" c = some ((), c')) :
    ∃ j, c.rest = .punct '=' j :: c'.rest := by
  change (require (Syntax.atOp "=" c.rest) >>= fun _ => _) c = _ at h
  obtain ⟨⟨_, c₁⟩, hrequire, h⟩ := Option.bind_eq_some_iff.mp h
  obtain ⟨rest, printed, mentioned⟩ := c
  match rest, hrequire with
  | .punct d j :: rest, hrequire =>
    change require ('=' == d) _ = _ at hrequire
    by_cases hd : '=' = d
    · subst hd
      cases hrequire
      cases h
      exact ⟨j, rfl⟩
    · rw [beq_false_of_ne hd] at hrequire
      cases hrequire

theorem stringValue?_minus (text : String) : Literal.stringValue? ("-" ++ text) = none := by
  unfold Literal.stringValue?
  rw [String.toList_append]
  rfl

/-- A truth value and a negative number are literals too, but no strings. -/
theorem rest_of_literal {c : Syntax.Cursor} {v : String} (h : literal (start ts) = some ((), c))
    (hprinted : c.printed = [.literal text]) (hv : Literal.stringValue? text = some v) :
    ts = .literal text :: c.rest := by
  obtain ⟨⟨_, c₁⟩, hrequire, h⟩ := Option.bind_eq_some_iff.mp h
  obtain rfl : start ts = c₁ := by
    change require (Syntax.atLiteral ts) _ = _ at hrequire
    cases hliteral : Syntax.atLiteral ts with
    | true => rw [hliteral] at hrequire; cases hrequire; rfl
    | false => rw [hliteral] at hrequire; cases hrequire
  match ts, h with
  | .literal text' :: ts, h =>
    cases h
    cases hprinted
    rfl
  | .ident i :: ts, h =>
    cases h
    cases hprinted
  | .punct d j :: .literal text' :: ts, h =>
    cases h
    cases hprinted
    rw [stringValue?_minus] at hv
    cases hv

/-- A value that is a string is the literal after the equals sign. -/
theorem argumentValue_eq_some {f : Fragment} {c : Syntax.Cursor} {v : String}
    (h : StateT.run argumentValue (start ts) = some (f, c)) (htokens : f.tokens = [.literal text])
    (hv : Literal.stringValue? text = some v) :
    ∃ j, ts = .punct '=' j :: .literal text :: c.rest := by
  obtain ⟨⟨_, c₁⟩, hop, h⟩ := Option.bind_eq_some_iff.mp h
  obtain ⟨j, hts⟩ := rest_of_op_equals hop
  obtain ⟨⟨⟨_, f'⟩, c₂⟩, hcaptured, h⟩ := Option.bind_eq_some_iff.mp h
  cases h
  refine ⟨j, hts.trans (congrArg _ ?_)⟩
  unfold captured at hcaptured
  split at hcaptured
  · next c' hliteral =>
    cases hcaptured
    exact rest_of_literal (c := c') hliteral (List.reverse_eq_iff.mp htokens) hv
  · cases hcaptured

/-- One argument that gives the string, and what follows it. -/
def IsAliasArgument (text : String) (ts rest : List Token) : Prop :=
  ∃ (i : Ident) (j : Bool), i.isWord Marker.aliasArgument = true ∧
    ts = .ident i :: .punct '=' j :: .literal text :: rest

theorem argument_eq_ok {given : Option String} (h : argument given ts = .ok (text, rest)) :
    given = none ∧ IsAliasArgument text ts rest ∧ ∃ v, Literal.stringValue? text = some v := by
  unfold argument at h
  -- An argument is accepted only if all its checks, made one within the other, are met.
  split at h
  · cases h
  · next p c hname =>
    split at h
    · cases h
    · next hword =>
      split at h
      · cases h
      · next f c' hvalue =>
        split at h
        · next text' v htokens hv =>
          split at h
          · cases h
          · split at h
            · cases h
            · next hgiven =>
              cases h
              have hstring : Literal.stringValue? text = some v := by
                unfold Fragment.stringValue? at hv
                rw [htokens] at hv
                exact hv
              obtain ⟨i, hi, hts⟩ := argumentName_eq_some hname (by simpa using hword)
              obtain ⟨j, hrest⟩ := argumentValue_eq_some hvalue htokens hstring
              exact ⟨by simpa using hgiven, ⟨i, j, hi, by rw [hts, hrest]⟩, v, hstring⟩
        · cases h

/-- One argument is all there can be. A comma may follow it. -/
theorem arguments_eq_ok {aliasName : Option String} (h : arguments ts = .ok aliasName) :
    (ts = [] ∧ aliasName = none) ∨
      ∃ text v rest, aliasName = some text ∧ Literal.stringValue? text = some v ∧
        IsAliasArgument text ts rest ∧ (rest = [] ∨ ∃ j, rest = [.punct ',' j]) := by
  unfold arguments at h
  split at h
  · next hempty =>
    cases h
    exact .inl ⟨by simpa using hempty, rfl⟩
  · right
    cases ts with
    | nil => contradiction
    | cons t ts =>
      rw [List.length_cons, argumentsWithin] at h
      split at h
      · cases h
      · next text harg =>
        cases h
        obtain ⟨-, hargument, v, hv⟩ := argument_eq_ok harg
        exact ⟨text, v, [], rfl, hv, hargument, .inl rfl⟩
      · next text j harg =>
        cases h
        obtain ⟨-, hargument, v, hv⟩ := argument_eq_ok harg
        exact ⟨text, v, _, rfl, hv, hargument, .inr ⟨j, rfl⟩⟩
      · next text j rest hne harg =>
        -- A second argument would be one too many.
        cases hn : ts.length with
        | zero => rw [hn] at h; cases h
        | succ n =>
          rw [hn, argumentsWithin] at h
          split at h
          · cases h
          all_goals
            next harg' =>
              obtain ⟨hgiven, -⟩ := argument_eq_ok harg'
              cases hgiven
      · cases h

end Expansion

/-! ## 2. The same arguments as meta items -/

namespace Syntax.Meta

open Reader Grammar

variable {text : String} {rest ts : List Token}

theorem listOfTokens?_aliasArgument (h : Expansion.IsAliasArgument text ts rest)
    (hrest : rest = [] ∨ ∃ j, rest = [.punct ',' j]) :
    ∃ i : Ident, i.isWord Marker.aliasArgument = true ∧
      listOfTokens? ts = some [.value (.ofIdent i) (.plain [.literal text])] := by
  obtain ⟨i, j, hi, rfl⟩ := h
  have hname : i.isName = true :=
    Ident.isName_of_isWord hi (by simp [Marker.aliasArgument, Ident.reservedWords])
  have hread : ∀ g (rest : List Token), ClosedBy [','] rest →
      Reads (read (rules (rules g)).value) (.ident i :: .punct '=' j :: .literal text :: rest) rest
        (.value (.ofIdent i) (.plain [.literal text])) _ := fun g rest hrest =>
    reads_read _ (ofName i hname) (atChars_of_ne (by decide) [':'] j _)
      (reads_readAfter_literal g _ j hrest)
  refine ⟨i, hi, ?_⟩
  rcases hrest with rfl | ⟨j', rfl⟩
  · exact listOfTokens?_of_commaList fun g => ⟨_, .last (by simp) (hread g [] trivial)⟩
  · exact listOfTokens?_of_commaList fun g =>
      ⟨_, .more (by simp) (hread g _ (closedBy_punct List.mem_cons_self j' [])) .nil⟩

end Syntax.Meta

/-! ## 3. The attribute -/

/-- The ways to write a tag: with its arguments between brackets of any kind, or without brackets if
there are no arguments. -/
inductive Spelling (args : List Token) where
  | bracketed (d : Delimiter)
  | bare (h : args = [])

namespace Spelling

variable {args : List Token}

def content (p : Path) : Spelling args → Meta
  | .bracketed d => .list p d args
  | .bare _ => .path p

/-- The attribute that is read from the tag. -/
def toAttribute (s : Spelling args) (p : Path) : Attribute := ⟨false, s.content p⟩

/-- What follows the path. -/
def after : Spelling args → List Token
  | .bracketed d => [.group d args]
  | .bare _ => []

/-- The tokens of the tag. -/
def tokens (s : Spelling args) (marker : NamePath) : List Token :=
  [.punct '#' false, .bracket (marker.tokens ++ s.after)]

open Syntax Syntax.Reader in
/-- The attributes that are read from the tokens of the tag are the tag's one. -/
theorem run?_tokens (expr : Reader Unit) (marker : NamePath) (s : Spelling args) :
    (Attribute.readOuter expr).run? (s.tokens marker) = some [s.toAttribute marker.toPath] := by
  have hcontent : Reads (Meta.read expr) (marker.tokens ++ s.after) [] (s.content marker.toPath)
      (s.content marker.toPath).fragment := by
    cases s with
    | bracketed d => exact Meta.reads_read expr marker rfl (Meta.reads_readAfter_list expr _ d args [])
    | bare h => exact Meta.reads_read expr marker rfl (Meta.reads_readAfter_path expr _ trivial)
  have houter := Attribute.Outer.cons false hcontent .nil
  have hreads : Reads (Attribute.readOuter expr) (s.tokens marker ++ []) [] _ _ := houter.reads rfl
  rw [List.append_nil] at hreads
  exact hreads.run?

theorem aliasName?_of_nil (p : Path) (s : Spelling args) (h : args = []) :
    (s.toAttribute p).aliasName? = none := by
  subst h
  have hlist : Meta.listOfTokens? [] = some [] :=
    Meta.listOfTokens?_of_commaList fun g => ⟨_, .nil⟩
  cases s with
  | bracketed d =>
    show (Meta.listOfTokens? []).bind (fun ms => (ms.filterMap Meta.aliasName?).getLast?) = none
    rw [hlist]
    rfl
  | bare h => rfl

theorem aliasName?_of_aliasArgument {text v : String} {rest : List Token} (p : Path)
    (s : Spelling args) (h : Expansion.IsAliasArgument text args rest)
    (hrest : rest = [] ∨ ∃ j, rest = [.punct ',' j]) (hv : Literal.stringValue? text = some v) :
    (s.toAttribute p).aliasName? = some v := by
  obtain ⟨i, hi, hlist⟩ := Meta.listOfTokens?_aliasArgument h hrest
  have hmeta : Meta.aliasName? (.value (.ofIdent i) (.plain [.literal text])) = some v := by
    show (if i.isWord Marker.aliasArgument then Literal.stringValue? text else none) = some v
    rw [if_pos hi, hv]
  cases s with
  | bracketed d =>
    show (Meta.listOfTokens? args).bind (fun ms => (ms.filterMap Meta.aliasName?).getLast?) = some v
    rw [hlist, Option.bind_some, List.filterMap_cons_some hmeta]
    rfl
  | bare hnil =>
    obtain ⟨i, j, -, hargs⟩ := h
    rw [hnil] at hargs
    cases hargs

end Spelling

/-! ## 4. The constants of an implementation -/

namespace Expansion

open Token (word operator brace)

variable (x : Expansion)

/-- The implementation gives a constant this type and this value. -/
def Declares (name : Ident) (type value : List Token) : Prop :=
  ∃ before body, x.tokens = before ++ [brace body] ∧ constant name type value <:+: body

/-- The constant for the database name. -/
def aliasConstant : Ident := .plain "PG_ALIAS"

/-- What stands between the braces of the implementation. -/
def body : List Token := x.constantTokens ++ x.nameTokens ++ x.variantTokens

theorem declares_iff {name : Ident} {type value : List Token} :
    x.Declares name type value ↔ constant name type value <:+: x.body := by
  have htokens : x.tokens = (x.enum.fragment.tokens ++ word "impl" ::
      rooted [.plain "pgenum", .plain "PgEnum"] ++ [word "for", .ident x.enum.ident]) ++
      [brace x.body] := by
    simp [tokens, implementationTokens, body]
  unfold Declares
  rw [htokens]
  constructor
  · rintro ⟨before, body, heq, hinfix⟩
    obtain ⟨-, hbody⟩ := List.append_inj' heq rfl
    cases hbody
    exact hinfix
  · intro hinfix
    exact ⟨_, _, rfl, hinfix⟩

/-- The constants in front of the one for the database name. -/
def plainConstants : List Token :=
  constant (.plain "RUST_NAME") staticText [nameLiteral x.enum.ident.name] ++
    constant (.plain "VARIANTS") [mark '&', .lifetime (.plain "static"), .bracket staticText]
      [mark '&', .bracket (literals x.variantNames)]

def aliasTokens : List Token :=
  match x.aliasName with
  | some text => constant aliasConstant (optional staticText) (present [.literal text])
  | none => []

theorem aliasTokens_of_some {x : Expansion} {text : String} (h : x.aliasName = some text) :
    x.aliasTokens = constant aliasConstant (optional staticText) (present [.literal text]) := by
  unfold aliasTokens
  rw [h]

theorem body_eq : x.body = x.plainConstants ++ x.aliasTokens ++ (x.nameTokens ++ x.variantTokens) := by
  simp only [body, constantTokens, plainConstants, aliasTokens, List.append_assoc]
  rfl

theorem aliasConstant_not_mem_plainConstants : .ident aliasConstant ∉ x.plainConstants := by
  simp [plainConstants, constant, staticText, mark, word, nameLiteral, aliasConstant, Ident.plain,
    Token.bracket]

theorem aliasConstant_not_mem_functions :
    .ident aliasConstant ∉ x.nameTokens ++ x.variantTokens := by
  simp [nameTokens, variantTokens, function, staticText, optional, rooted, operator, mark, word,
    aliasConstant, Ident.plain, Token.paren, brace]

/-- A constant from the colon after its name on. -/
def afterName (type value : List Token) : List Token :=
  mark ':' :: type ++ mark '=' :: value ++ [mark ';']

theorem constant_eq (name : Ident) (type value : List Token) :
    constant name type value = [word "const"] ++ .ident name :: afterName type value := by
  simp [constant, afterName]

theorem mem_of_constant_infix {name : Ident} {type value ts : List Token}
    (h : constant name type value <:+: ts) : .ident name ∈ ts :=
  h.subset (by simp [constant])

theorem not_declares_aliasConstant (h : x.aliasName = none) (type value : List Token) :
    ¬x.Declares aliasConstant type value := by
  intro hdeclares
  have hmem := mem_of_constant_infix ((declares_iff x).mp hdeclares)
  rw [body_eq, aliasTokens, h, List.append_nil] at hmem
  rcases List.mem_append.mp hmem with hmem | hmem
  · exact aliasConstant_not_mem_plainConstants x hmem
  · exact aliasConstant_not_mem_functions x hmem

/-- Two constants of one name are the same if the name stands only once. -/
theorem afterName_of_infix {name : Ident} {type value type' value' before after : List Token}
    (hbefore : .ident name ∉ before ++ [word "const"])
    (hafter : .ident name ∉ afterName type' value' ++ after)
    (h : constant name type value <:+: before ++ constant name type' value' ++ after) :
    ∃ ts, afterName type' value' ++ after = afterName type value ++ ts := by
  obtain ⟨before', after', heq⟩ := h
  have hsplit : ∀ (type value before after : List Token),
      before ++ constant name type value ++ after =
        (before ++ [word "const"]) ++ .ident name :: (afterName type value ++ after) := by
    intro type value before after
    simp [constant_eq]
  rw [hsplit, hsplit] at heq
  obtain ⟨-, -, htail⟩ := (List.append_cons_inj_of_notMem hbefore hafter).mp heq.symm
  exact ⟨after', htail⟩

/-- The constant stands in the implementation once, with the literal of the tag. -/
theorem declares_aliasConstant_iff {text : String} :
    x.Declares aliasConstant (optional staticText) (present [.literal text]) ↔
      x.aliasName = some text := by
  constructor
  · intro hdeclares
    cases halias : x.aliasName with
    | none => exact absurd hdeclares (not_declares_aliasConstant x halias _ _)
    | some text' =>
      have hinfix := (declares_iff x).mp hdeclares
      rw [body_eq, aliasTokens_of_some halias] at hinfix
      -- The name of the constant stands nowhere else, so what follows it is the literal of the tag.
      have hbefore : .ident aliasConstant ∉ x.plainConstants ++ [word "const"] := by
        simpa [word, aliasConstant, Ident.plain] using aliasConstant_not_mem_plainConstants x
      have hvalue : .ident aliasConstant ∉ afterName (optional staticText)
          (present [.literal text']) := by
        simp [afterName, optional, present, rooted, staticText, operator, mark, word,
          aliasConstant, Ident.plain, Token.paren]
      have hafter : .ident aliasConstant ∉ afterName (optional staticText)
          (present [.literal text']) ++ (x.nameTokens ++ x.variantTokens) := by
        intro hmem
        rcases List.mem_append.mp hmem with hmem | hmem
        · exact hvalue hmem
        · exact aliasConstant_not_mem_functions x hmem
      obtain ⟨ts, htail⟩ := afterName_of_infix hbefore hafter hinfix
      have htext : text' = text := by
        simp [afterName, present, Token.paren] at htail
        exact htail.1
      rw [htext]
  · intro halias
    refine (declares_iff x).mpr ⟨x.plainConstants, x.nameTokens ++ x.variantTokens, ?_⟩
    rw [body_eq, aliasTokens_of_some halias]

/-! ## 5. Agreement -/

/-- What an accepted tag and item are. -/
theorem ofTokens_eq_ok {args item : List Token} {x : Expansion} (h : ofTokens args item = .ok x) :
    arguments args = .ok x.aliasName ∧ Item.ofTokens? item = some (.enum x.enum) ∧
      x.enum.isGeneric = false := by
  unfold ofTokens at h
  cases hargs : arguments args with
  | error e => rw [hargs] at h; cases h
  | ok aliasName =>
    rw [hargs] at h
    simp only [bind, Except.bind] at h
    split at h
    · cases h
    · next i hitem =>
      cases i with
      | enum e =>
        -- An enum is taken unless it is generic or one of its variants has fields.
        cases hgeneric : e.isGeneric with
        | true =>
          have hof : enumOf (.enum e) = .error .generic := by simp [enumOf, hgeneric]
          rw [hof] at h
          cases h
        | false =>
          cases hvariants : e.variants.all (·.fields.isUnit) with
          | true =>
            have hof : enumOf (.enum e) = .ok e := by simp [enumOf, hgeneric, hvariants]
            rw [hof] at h
            cases h
            exact ⟨rfl, hitem, hgeneric⟩
          | false =>
            have hof : enumOf (.enum e) = .error .variantWithFields := by
              simp [enumOf, hgeneric, hvariants]
            rw [hof] at h
            cases h
      | _ => cases h

/-- An enum as the extraction finds it: with the attribute, which the expansion does not see. -/
def IsTaggedWith (x : Expansion) (a : Attribute) (e : Syntax.Enum) : Prop :=
  ∃ before after, x.enum.attrs = before ++ after ∧
    e = { x.enum with attrs := before ++ a :: after }

/-- The argument for the database name is what the constant of the implementation stands for: a
literal of the same value where there is one, and nothing where the constant keeps its default. -/
def IsNamedBy (x : Expansion) (argument : List Layout.Doc) : Prop :=
  (argument = [.text "None"] ∧ ∀ type value, ¬x.Declares aliasConstant type value) ∨
    ∃ text literal v, argument = .text "Some" :: Layout.Doc.list "(" ")" true [[.text literal]] ∧
      x.Declares aliasConstant (optional staticText) (present [.literal text]) ∧
      Literal.stringValue? text = some v ∧ Literal.stringValue? literal = some v

/-- The expansion and the extraction agree on an attribute. -/
structure AgreesWith (x : Expansion) (a : Attribute) : Prop where
  given : ∀ v, a.aliasName? = some v ↔ ∃ text, Literal.stringValue? text = some v ∧
    x.Declares aliasConstant (optional staticText) (present [.literal text])
  default : a.aliasName? = none ↔ ∀ type value, ¬x.Declares aliasConstant type value
  notGeneric : ∀ (c : Candidate) (crateName : String), x.IsTaggedWith a c.enum →
    c.qualifiedName crateName ≠ .error .generic
  /-- A candidate that has this marker and no other is registered under the database name that the
  constant stands for. -/
  registered : ∀ (c : Candidate) (crateName name : String) (ss : Scopes) (m : Marker),
    c.markers ss m = [a] → c.qualifiedName crateName = .ok name →
      ∃ d, (Extraction.examine ss m crateName c).2 = some d ∧ d.qualifiedName = name ∧
        ∀ entry, Artifact.entryOf d = .ok entry → x.IsNamedBy entry.aliasDoc

theorem isNamedBy_aliasDoc {d : Descriptor} {entry : Entry}
    (hentry : Artifact.entryOf d = .ok entry)
    (hsome : ∀ v, d.aliasName = some v → ∃ text, Literal.stringValue? text = some v ∧
      x.Declares aliasConstant (optional staticText) (present [.literal text]))
    (hnone : d.aliasName = none → ∀ type value, ¬x.Declares aliasConstant type value) :
    x.IsNamedBy entry.aliasDoc := by
  have haliasName : entry.aliasName = d.aliasName := by
    unfold Artifact.entryOf at hentry
    split at hentry
    · cases hentry
      rfl
    · cases hentry
  unfold Entry.aliasDoc
  rw [haliasName]
  cases halias : d.aliasName with
  | none => exact .inl ⟨rfl, hnone halias⟩
  | some v =>
    obtain ⟨text, hvalue, hdeclares⟩ := hsome v halias
    exact .inr ⟨text, Text.quoted v, v, rfl, hdeclares, hvalue, Text.stringValue?_quoted v⟩

/-- What follows from the literal of the expansion and the answer of the extraction having one
value. -/
theorem agreesWith_of_aliasName? {a : Attribute} (hgeneric : x.enum.isGeneric = false)
    (halias : a.aliasName? = x.aliasName.bind Literal.stringValue?)
    (hstring : ∀ text, x.aliasName = some text → (Literal.stringValue? text).isSome = true) :
    x.AgreesWith a := by
  have hgiven : ∀ v, a.aliasName? = some v ↔ ∃ text, Literal.stringValue? text = some v ∧
      x.Declares aliasConstant (optional staticText) (present [.literal text]) := by
    intro v
    rw [halias, Option.bind_eq_some_iff]
    refine exists_congr fun text => ?_
    rw [declares_aliasConstant_iff]
    exact and_comm
  have hdefault : a.aliasName? = none ↔ ∀ type value, ¬x.Declares aliasConstant type value := by
    constructor
    · intro hnone
      refine not_declares_aliasConstant x ?_
      cases hx : x.aliasName with
      | none => rfl
      | some text =>
        have hsome := hstring text hx
        rw [hx, hnone, Option.bind_some] at halias
        rw [← halias] at hsome
        cases hsome
    · intro hnot
      cases hx : x.aliasName with
      | none => rw [halias, hx]; rfl
      | some text => exact absurd ((declares_aliasConstant_iff x).mpr hx) (hnot _ _)
  refine ⟨hgiven, hdefault, ?_, ?_⟩
  · rintro c crateName ⟨before, after, -, henum⟩ herror
    have hc : c.enum.isGeneric = false := by
      rw [henum]
      exact hgeneric
    unfold Candidate.qualifiedName at herror
    split at herror
    · cases herror
    · rw [hc, if_neg (by decide)] at herror
      split at herror
      · cases herror
      · split at herror <;> cases herror
  · intro c crateName name ss m hmarkers hname
    refine ⟨⟨name, a.aliasName?⟩, ?_, rfl, fun entry hentry => ?_⟩
    · unfold Extraction.examine
      rw [hname, hmarkers]
      show some (Descriptor.mk name ([a].filterMap Attribute.aliasName?).getLast?) = _
      cases h : a.aliasName? with
      | none => rw [List.filterMap_cons_none h]; rfl
      | some v => rw [List.filterMap_cons_some h]; rfl
    · exact isNamedBy_aliasDoc x hentry (fun v => (hgiven v).mp) hdefault.mp

/-- Where the expansion accepts a tag and an item, the item is an enum, each way to write the tag is
read as an attribute, and the extraction agrees with the expansion on it. -/
theorem ofTokens_agrees {args item : List Token} {x : Expansion} (h : ofTokens args item = .ok x)
    (marker : NamePath) (s : Spelling args) :
    Item.ofTokens? item = some (.enum x.enum) ∧
      (∀ expr, (Attribute.readOuter expr).run? (s.tokens marker) =
        some [s.toAttribute marker.toPath]) ∧
      x.AgreesWith (s.toAttribute marker.toPath) := by
  obtain ⟨hargs, hitem, hgeneric⟩ := ofTokens_eq_ok h
  refine ⟨hitem, fun expr => s.run?_tokens expr marker, ?_⟩
  rcases arguments_eq_ok hargs with ⟨hnil, hnone⟩ | ⟨text, v, rest, hsome, hv, hargument, hrest⟩
  · refine agreesWith_of_aliasName? x hgeneric ?_ ?_
    · rw [s.aliasName?_of_nil _ hnil, hnone]
      rfl
    · intro text hsome
      rw [hnone] at hsome
      cases hsome
  · refine agreesWith_of_aliasName? x hgeneric ?_ ?_
    · rw [s.aliasName?_of_aliasArgument _ hargument hrest hv, hsome, Option.bind_some, hv]
    · intro text' hsome'
      rw [hsome] at hsome'
      cases hsome'
      rw [hv]
      rfl

theorem ofTokens_agrees_mood :
    let args := [word "alias", mark '=', .literal "\"mood\"", mark ',']
    let item := [word "pub", word "enum", word "Feeling", brace [word "Calm", mark ',', word "Happy"]]
    ∃ x, ofTokens args item = .ok x ∧ ∃ a : Attribute, a.aliasName? = some "mood" ∧
      x.AgreesWith a := by
  intro args item
  have hok : (ofTokens args item).toOption.map (·.aliasName) = some (some "\"mood\"") := by
    decide +kernel
  cases h : ofTokens args item with
  | error e =>
    rw [h] at hok
    cases hok
  | ok x =>
    rw [h] at hok
    have halias : x.aliasName = some "\"mood\"" := Option.some.inj hok
    have hagrees := (ofTokens_agrees h ⟨false, .plain "pgenum", [.plain "pg_enum"], by decide⟩
      (.bracketed .paren)).2.2
    refine ⟨x, rfl, _, (hagrees.given "mood").mpr ⟨"\"mood\"", by decide, ?_⟩, hagrees⟩
    exact (declares_aliasConstant_iff x).mpr halias

end Expansion

end EnumCatalog
