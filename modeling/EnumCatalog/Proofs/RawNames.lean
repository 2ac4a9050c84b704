import EnumCatalog.Proofs.Akin
import EnumCatalog.Proofs.Equality

/-!
# Raw marks

A raw mark says nothing of what an identifier names. Here the marks are taken off a program where
names are imported, defined and looked up: in imports, in the names of modules and enums, in the
paths of attributes and in the predicates of `cfg` attributes (`Program.unraw`). The modules, the
imports and the names of the enums stay the same (`Declarations.ofItems_unraw`), so programs that
differ in raw marks only have the same descriptors (`Program.descriptors_eq_iff_of_unraw_eq`).

But two places take identifiers as they are written: `cfg` attributes are recognised by the word,
and so are the options they name, and the search for the marker's crate compares texts. So the marks
have to leave the verdicts on `cfg` attributes and the outcome of the search as they are; a mark on
the word `cfg` alone makes a difference (`Program.descriptors_ne_withMarkedCfg`).
-/

set_option autoImplicit false

namespace EnumCatalog

open Syntax (Attribute Meta Item Enum Use UseTree ExternCrate ModuleHead Path Variant Fragment
  SourceFile)

/-! ## 1. Taking off the marks -/

namespace Ident

/-- The identifier without its raw mark. -/
def unraw (i : Ident) : Ident := ⟨false, i.name, i.isText, rfl⟩

/-- A text that is an identifier, without its raw mark. -/
def unrawText (text : String) : String :=
  match text.toList with
  | 'r' :: '#' :: name => String.ofList name
  | _ => text

end Ident

namespace Token

mutual

/-- The token with the raw marks taken off the identifiers in it. -/
def unraw : Token → Token
  | .ident i => .ident i.unraw
  | .group d inner => .group d (unrawAll inner)
  | t => t

@[inherit_doc unraw]
def unrawAll : List Token → List Token
  | [] => []
  | t :: ts => t.unraw :: unrawAll ts

end

end Token

namespace Syntax

/-- The path with the raw marks taken off its names. -/
def Path.unraw (p : Path) : Path :=
  { p with segments := p.segments.map fun s => { s with ident := s.ident.unraw } }

/-- The marks are taken off the path, and off the predicate if the path is the word `cfg`. What the
arguments of other attributes mean is not known. -/
def Meta.unraw : Meta → Meta
  | .path p => .path p.unraw
  | .list p d arguments =>
    .list p.unraw d (if p.unraw.isWord "cfg" then Token.unrawAll arguments else arguments)
  | .value p v => .value p.unraw v

def Attribute.unraw (a : Attribute) : Attribute := { a with content := a.content.unraw }

namespace UseTree

mutual

/-- The tree with the raw marks taken off its names. -/
def unraw : UseTree → UseTree
  | .path i rest => .path i.unraw rest.unraw
  | .name i => .name i.unraw
  | .rename i r => .rename i.unraw r.unraw
  | .glob => .glob
  | .group ts trailing => .group (unrawAll ts) trailing

@[inherit_doc unraw]
def unrawAll : List UseTree → List UseTree
  | [] => []
  | t :: ts => t.unraw :: unrawAll ts

end

end UseTree

def Use.unraw (u : Use) : Use :=
  { u with attrs := u.attrs.map Attribute.unraw, tree := u.tree.unraw }

def ExternCrate.unraw (x : ExternCrate) : ExternCrate :=
  { x with attrs := x.attrs.map Attribute.unraw, ident := x.ident.unraw,
           rename := x.rename.map Ident.unraw }

def ModuleHead.unraw (h : ModuleHead) : ModuleHead :=
  { h with attrs := h.attrs.map Attribute.unraw, ident := h.ident.unraw }

def Variant.unraw (v : Variant) : Variant := { v with attrs := v.attrs.map Attribute.unraw }

/-- The marks are taken off the name, and off the attributes of the enum and its variants. -/
def Enum.unraw (e : Enum) : Enum :=
  { e with attrs := e.attrs.map Attribute.unraw, ident := e.ident.unraw,
           variants := e.variants.map Variant.unraw }

/-- In what is not looked into the marks are taken off everywhere. -/
def Fragment.unraw (f : Fragment) : Fragment :=
  ⟨Token.unrawAll f.tokens, f.mentions.map Ident.unrawText⟩

namespace Item

mutual

/-- The item with the raw marks taken off. -/
def unraw : Item → Item
  | .enum e => .enum e.unraw
  | .fileModule h => .fileModule h.unraw
  | .inlineModule h items => .inlineModule h.unraw (unrawAll items)
  | .use u => .use u.unraw
  | .externCrate x => .externCrate x.unraw
  | .other f => .other f.unraw

@[inherit_doc unraw]
def unrawAll : List Item → List Item
  | [] => []
  | i :: rest => i.unraw :: unrawAll rest

end

mutual

/-- The attributes by which it is decided what of an item is compiled, list by list. -/
def cfgLists : Item → List (List Attribute)
  | .enum e => [e.attrs]
  | .inlineModule h items => h.attrs :: cfgListsAll items
  | _ => []

@[inherit_doc cfgLists]
def cfgListsAll : List Item → List (List Attribute)
  | [] => []
  | i :: rest => i.cfgLists ++ cfgListsAll rest

end

end Item

def SourceFile.unraw (f : SourceFile) : SourceFile :=
  ⟨f.attrs.map Attribute.unraw, Item.unrawAll f.items⟩

end Syntax

def SourceUnit.unraw (u : SourceUnit) : SourceUnit := { u with source := u.source.unraw }

namespace Program

/-- The program with the raw marks taken off. -/
def unraw (p : Program) : Program := { p with files := p.files.map SourceUnit.unraw }

/-- The attributes by which it is decided what is compiled, list by list. -/
def cfgLists (p : Program) : List (List Attribute) :=
  p.files.flatMap fun u => Item.cfgListsAll u.source.items

/-- The raw marks make no difference to the verdicts on `cfg` attributes, nor to the database names
that attributes ask for. -/
structure ReadsAlike (p : Program) : Prop where
  verdict : ∀ as ∈ p.cfgLists, p.options.enabled (as.map Attribute.unraw) = p.options.enabled as
  aliasName? : ∀ as ∈ p.cfgLists, ∀ a ∈ as, a.unraw.aliasName? = a.aliasName?

end Program

/-! ## 2. Names and imports stay -/

namespace Syntax

@[simp]
theorem Path.names_unraw (p : Path) : p.unraw.names = p.names := by
  simp [names, unraw, Ident.unraw]

theorem Path.ident?_unraw (p : Path) : p.unraw.ident? = p.ident?.map Ident.unraw := by
  obtain ⟨_ | _, _ | ⟨⟨i, _ | args⟩, _ | ⟨s, rest⟩⟩⟩ := p <;> rfl

/-- A path that is a plain word still is that word. -/
theorem Path.isWord_unraw {p : Path} {w : String} (h : p.isWord w = true) :
    p.unraw.isWord w = true := by
  rw [isWord, Option.any_eq_true] at h
  obtain ⟨i, hi, hword⟩ := h
  rw [isWord, ident?_unraw, hi]
  rw [Ident.isWord, Bool.and_eq_true] at hword
  exact hword.2

@[simp]
theorem Attribute.name_unraw (a : Attribute) : a.unraw.name = a.name.unraw := by
  obtain ⟨inner, _ | _ | _⟩ := a <;> rfl

/-- An attribute that is not `cfg` keeps its arguments. -/
theorem Attribute.aliasName?_unraw {a : Attribute} (h : a.name.unraw.isWord "cfg" = false) :
    a.unraw.aliasName? = a.aliasName? := by
  obtain ⟨inner, content⟩ := a
  cases content with
  | path p => rfl
  | value p v => rfl
  | list p d arguments =>
    replace h : p.unraw.isWord "cfg" = false := h
    have harguments : (Attribute.mk inner (.list p d arguments)).unraw =
        ⟨inner, .list p.unraw d arguments⟩ := by
      rw [unraw, Meta.unraw, if_neg (ne_true_of_eq_false h)]
    rw [harguments]
    rfl

namespace UseTree

mutual

theorem imports_unraw : ∀ (t : UseTree) (above : List String),
    t.unraw.imports above = t.imports above
  | .path i rest, above => by
    rw [unraw, imports, imports, imports_unraw rest]
    rfl
  | .name i, above => by
    rw [unraw, imports, imports]
    rfl
  | .rename i r, above => by
    rw [unraw, imports, imports]
    rfl
  | .glob, above => by rw [unraw]
  | .group ts trailing, above => by rw [unraw, imports, imports, importsAll_unrawAll ts]

theorem importsAll_unrawAll : ∀ (ts : List UseTree) (above : List String),
    importsAll above (unrawAll ts) = importsAll above ts
  | [], above => by rw [unrawAll]
  | t :: ts, above => by
    rw [unrawAll, importsAll, importsAll, imports_unraw t, importsAll_unrawAll ts]

end

end UseTree

theorem Item.imports_unraw (x : Item) : x.unraw.imports = x.imports := by
  cases x with
  | use u => exact UseTree.imports_unraw u.tree []
  | externCrate x =>
    obtain ⟨attrs, vis, ident, _ | r⟩ := x <;> rfl
  | _ => rfl

end Syntax

theorem Imports.ofItems_unrawAll (xs : List Item) : ofItems (Item.unrawAll xs) = ofItems xs := by
  induction xs with
  | nil => rfl
  | cons x xs ih =>
    rw [Item.unrawAll, ofItems, List.flatMap_cons, Item.imports_unraw]
    show x.imports ++ ofItems (Item.unrawAll xs) = x.imports ++ ofItems xs
    rw [ih]

/-! ## 3. Declarations stay -/

/-- The candidate with the raw marks taken off its enum. -/
def Candidate.unraw (c : Candidate) : Candidate := { c with enum := c.enum.unraw }

namespace Declarations

def unraw (d : Declarations) : Declarations := ⟨d.scopes, d.candidates.map Candidate.unraw⟩

theorem unraw_append (a b : Declarations) : (a ++ b).unraw = a.unraw ++ b.unraw := by
  show Declarations.mk _ _ = Declarations.mk _ _
  simp [unraw]

theorem ofEnum_unraw {o : Cfg.Options} {e : Enum} (p : Place) (scope : ScopeId)
    (h : o.enabled (e.attrs.map Attribute.unraw) = o.enabled e.attrs) :
    ofEnum o p scope e.unraw = (ofEnum o p scope e).unraw := by
  have hcandidate : isCandidate e.unraw = isCandidate e := by
    rw [isCandidate, isCandidate, Enum.unraw, List.isEmpty_map]
  unfold ofEnum
  rw [hcandidate]
  split
  case isTrue =>
    show Declarations.mk _ [_] = Declarations.mk _ [_]
    rw [Enum.unraw, h]
    rfl
  case isFalse => rfl

theorem within_unraw {o : Cfg.Options} {h : ModuleHead} (p : Place)
    (hverdict : o.enabled (h.attrs.map Attribute.unraw) = o.enabled h.attrs) :
    p.within o h.unraw = p.within o h := by
  rw [Place.within, Place.within, ModuleHead.unraw, hverdict]
  rfl

mutual

/-- Where the marks leave the verdicts as they are, an item without them declares the same. -/
theorem ofItem_unraw {o : Cfg.Options} (p : Place) (scope next : ScopeId) : ∀ x : Item,
    (∀ as ∈ x.cfgLists, o.enabled (as.map Attribute.unraw) = o.enabled as) →
      ofItem o p scope next x.unraw = (ofItem o p scope next x).unraw
  | .enum e, h => by
    rw [Item.unraw, ofItem, ofItem]
    exact ofEnum_unraw p scope (h e.attrs (by simp [Item.cfgLists]))
  | .inlineModule head items, h => by
    rw [Item.cfgLists] at h
    have hhead := within_unraw p (h head.attrs List.mem_cons_self)
    rw [Item.unraw, ofItem, ofItem, unraw_append, hhead, Imports.ofItems_unrawAll,
      ofItems_unrawAll (p.within o head) next (next + 1) items
        fun as has => h as (List.mem_cons_of_mem _ has)]
    rfl
  | .fileModule _, _ => by rw [Item.unraw]; rfl
  | .use _, _ => by rw [Item.unraw]; rfl
  | .externCrate _, _ => by rw [Item.unraw]; rfl
  | .other _, _ => by rw [Item.unraw]; rfl

theorem ofItems_unrawAll {o : Cfg.Options} (p : Place) (scope next : ScopeId) : ∀ xs : List Item,
    (∀ as ∈ Item.cfgListsAll xs, o.enabled (as.map Attribute.unraw) = o.enabled as) →
      ofItems o p scope next (Item.unrawAll xs) = (ofItems o p scope next xs).unraw
  | [], _ => by rw [Item.unrawAll]; rfl
  | x :: rest, h => by
    rw [Item.cfgListsAll] at h
    have hx := ofItem_unraw (o := o) p scope next x fun as has => h as (List.mem_append_left _ has)
    have hlength : (ofItem o p scope next x).unraw.scopes.length =
        (ofItem o p scope next x).scopes.length := rfl
    rw [Item.unrawAll, ofItems, ofItems, unraw_append, hx, hlength,
      ofItems_unrawAll p scope _ rest fun as has => h as (List.mem_append_right _ has)]

end

theorem ofUnit_unraw {o : Cfg.Options} {u : SourceUnit} (next : ScopeId)
    (h : ∀ as ∈ Item.cfgListsAll u.source.items,
      o.enabled (as.map Attribute.unraw) = o.enabled as) :
    ofUnit o next u.unraw = (ofUnit o next u).unraw := by
  have hitems : u.unraw.source.items = Item.unrawAll u.source.items := rfl
  have hplace : Place.ofUnit u.unraw = .ofUnit u := rfl
  rw [ofUnit, ofUnit, hitems, hplace, Imports.ofItems_unrawAll, unraw_append,
    ofItems_unrawAll _ _ _ _ h]
  rfl

theorem ofUnits_unraw {o : Cfg.Options} : ∀ (us : List SourceUnit) (next : ScopeId),
    (∀ u ∈ us, ∀ as ∈ Item.cfgListsAll u.source.items,
      o.enabled (as.map Attribute.unraw) = o.enabled as) →
    ofUnits o next (us.map SourceUnit.unraw) = (ofUnits o next us).unraw
  | [], _, _ => rfl
  | u :: us, next, h => by
    have hlength : (ofUnit o next u).unraw.scopes.length = (ofUnit o next u).scopes.length := rfl
    rw [List.map_cons, ofUnits, ofUnits, unraw_append,
      ofUnit_unraw next (h u List.mem_cons_self), hlength,
      ofUnits_unraw us _ fun u' hu' => h u' (List.mem_cons_of_mem _ hu')]

mutual

/-- The attributes of a candidate are among those that decide what is compiled. -/
theorem attrs_mem_cfgLists {o : Cfg.Options} {c : Candidate} (p : Place) (scope next : ScopeId) :
    ∀ x : Item, c ∈ (ofItem o p scope next x).candidates → c.enum.attrs ∈ x.cfgLists
  | .enum e, hc => by
    rw [ofItem, ofEnum] at hc
    split at hc
    case isTrue =>
      rw [List.mem_singleton.mp hc, Item.cfgLists]
      exact List.mem_singleton_self _
    case isFalse => exact absurd hc List.not_mem_nil
  | .inlineModule head items, hc => by
    rw [ofItem] at hc
    rw [Item.cfgLists]
    exact List.mem_cons_of_mem _ (attrs_mem_cfgListsAll _ _ _ items hc)
  | .fileModule _, hc => absurd hc List.not_mem_nil
  | .use _, hc => absurd hc List.not_mem_nil
  | .externCrate _, hc => absurd hc List.not_mem_nil
  | .other _, hc => absurd hc List.not_mem_nil

theorem attrs_mem_cfgListsAll {o : Cfg.Options} {c : Candidate} (p : Place)
    (scope next : ScopeId) : ∀ xs : List Item,
      c ∈ (ofItems o p scope next xs).candidates → c.enum.attrs ∈ Item.cfgListsAll xs
  | [], hc => absurd hc List.not_mem_nil
  | x :: rest, hc => by
    rw [ofItems] at hc
    rw [Item.cfgListsAll]
    rcases List.mem_append.mp hc with hc | hc
    · exact List.mem_append_left _ (attrs_mem_cfgLists _ _ _ x hc)
    · exact List.mem_append_right _ (attrs_mem_cfgListsAll _ _ _ rest hc)

end

theorem exists_attrs_mem_cfgListsAll {o : Cfg.Options} {c : Candidate} :
    ∀ (us : List SourceUnit) (next : ScopeId), c ∈ (ofUnits o next us).candidates →
      ∃ u ∈ us, c.enum.attrs ∈ Item.cfgListsAll u.source.items
  | [], _, hc => absurd hc List.not_mem_nil
  | u :: us, next, hc => by
    rw [ofUnits] at hc
    rcases List.mem_append.mp hc with hc | hc
    · exact ⟨u, List.mem_cons_self, attrs_mem_cfgListsAll _ _ _ _ hc⟩
    · obtain ⟨u', hu', hattrs⟩ := exists_attrs_mem_cfgListsAll us _ hc
      exact ⟨u', List.mem_cons_of_mem _ hu', hattrs⟩

end Declarations

/-! ## 4. Descriptors stay -/

@[simp]
theorem Scopes.resolve_unraw (ss : Scopes) (id : ScopeId) (p : Path) :
    ss.resolve id p.unraw = ss.resolve id p := by
  rw [resolve, resolve, Path.names_unraw]
  rfl

namespace Program

/-- If `cfg` attributes carry no marks, then it makes no difference where the others are. -/
theorem ReadsAlike.of_unmarked {p : Program}
    (h : ∀ as ∈ p.cfgLists, ∀ a ∈ as, a.name.unraw.isWord "cfg" = true → a.unraw = a) :
    p.ReadsAlike where
  verdict as has := by
    have hfilter : as.filter (fun a => a.unraw.name.isWord "cfg") =
        as.filter fun a => a.name.isWord "cfg" := by
      refine List.filter_congr fun a ha => ?_
      rw [Bool.eq_iff_iff, Attribute.name_unraw]
      refine ⟨fun hcfg => ?_, Path.isWord_unraw⟩
      rw [← h as has a ha hcfg, Attribute.name_unraw]
      exact hcfg
    have hsame : ∀ a ∈ as.filter fun a => a.name.isWord "cfg", a.unraw = a := fun a ha =>
      have ⟨ha, hcfg⟩ := List.mem_filter.mp ha
      h as has a ha (Path.isWord_unraw hcfg)
    rw [Cfg.Options.enabled, Cfg.Options.enabled, List.filter_map, Function.comp_def, hfilter,
      List.map_congr_left hsame, List.map_id']
  aliasName? as has a ha := by
    by_cases hcfg : a.name.unraw.isWord "cfg" = true
    · rw [h as has a ha hcfg]
    · exact Attribute.aliasName?_unraw (Bool.not_eq_true _ ▸ hcfg)

variable {p p' : Program} {m : Marker} {crateName : String}

theorem declarations_unraw (h : p.ReadsAlike) : p.unraw.declarations = p.declarations.unraw :=
  Declarations.ofUnits_unraw p.files 0 fun u hu as has =>
    h.verdict as (List.mem_flatMap.mpr ⟨u, hu, has⟩)

theorem forall₂_akin_unraw (h : p.ReadsAlike) :
    List.Forall₂ (Candidate.Akin p.scopes p.unraw.scopes m) p.declarations.candidates
      p.unraw.declarations.candidates := by
  have hscopes : p.unraw.scopes = p.scopes := by
    rw [scopes, scopes, declarations_unraw h]
    rfl
  have hcandidates : p.unraw.declarations.candidates =
      p.declarations.candidates.map Candidate.unraw := by
    rw [declarations_unraw h]
    rfl
  rw [hcandidates, hscopes, List.forall₂_map_right_iff, List.forall₂_same]
  intro c hc
  obtain ⟨u, hu, hattrs⟩ := Declarations.exists_attrs_mem_cfgListsAll p.files 0 hc
  refine ⟨rfl, rfl, fun _ => rfl, Candidate.aliases_eq ?_⟩
  show List.Forall₂ _ c.enum.attrs (c.enum.attrs.map Attribute.unraw)
  rw [List.forall₂_map_right_iff, List.forall₂_same]
  intro a ha
  refine ⟨?_, fun _ => ?_⟩
  · rw [Candidate.isMarker, Candidate.isMarker, Attribute.name_unraw, Scopes.resolve_unraw]
    rfl
  · exact (h.aliasName? _ (List.mem_flatMap.mpr ⟨u, hu, hattrs⟩) a ha).symm

theorem extractAnyway_unraw (h : p.ReadsAlike) (stop : Cancellation) :
    (p.unraw.extractAnyway m crateName stop).descriptors =
      (p.extractAnyway m crateName stop).descriptors :=
  (extractAnyway_congr (forall₂_akin_unraw h) stop).symm

/-- Programs that differ in raw marks only have the same descriptors, if the marks make no
difference to their `cfg` attributes and the search for the marker's crate comes to the same. -/
theorem descriptors_eq_iff_of_unraw_eq (hunraw : p.unraw = p'.unraw) (h : p.ReadsAlike)
    (h' : p'.ReadsAlike) (m : Marker) (crateName : String) (stop : Cancellation) :
    (p.extractAnyway m crateName stop).descriptors =
        (p'.extractAnyway m crateName stop).descriptors ∧
      ((p.extract m crateName stop).descriptors = (p'.extract m crateName stop).descriptors ↔
        p.mentions m.crateName = p'.mentions m.crateName ∨
          (p.extractAnyway m crateName stop).descriptors = []) := by
  have hanyway : (p.extractAnyway m crateName stop).descriptors =
      (p'.extractAnyway m crateName stop).descriptors := by
    rw [← extractAnyway_unraw h, ← extractAnyway_unraw h', hunraw]
  exact ⟨hanyway, descriptors_extract_eq_iff hanyway⟩

/-- Texts that are read with the same options are compared by their files. -/
theorem unraw_eq_of_files {o : Cfg.Options} {text text' : String}
    (h : (ofRootText o text).unraw.files = (ofRootText o text').unraw.files) :
    (ofRootText o text).unraw = (ofRootText o text').unraw := by
  have hoptions (t : String) : (ofRootText o t).options = o := by
    rw [ofRootText, addSource?]
    cases Syntax.SourceFile.parse? t with
    | none => rfl
    | some source => rfl
  simp only [unraw] at h
  rw [unraw, unraw, hoptions, hoptions, h]

/-- A program with a mark before the names of an import, an attribute and an enum. -/
def withMarkedNames (mark : String) : Program :=
  ofRootText .none
    ("use a::" ++ mark ++ "b;\n#[" ++ mark ++ "b]\npub enum " ++ mark ++ "C { D }")

theorem descriptors_eq_withMarkedNames :
    (withMarkedNames "").unraw = (withMarkedNames "r#").unraw ∧ (withMarkedNames "").ReadsAlike ∧
      (withMarkedNames "r#").ReadsAlike ∧
      ((withMarkedNames "").extract ⟨["a", "b"]⟩ "crate" .never).descriptors =
        [⟨"crate::C", none⟩] ∧
      ((withMarkedNames "r#").extract ⟨["a", "b"]⟩ "crate" .never).descriptors =
        [⟨"crate::C", none⟩] := by
  obtain ⟨hfiles, hunmarked, hfound, hmentions⟩ :
      (withMarkedNames "").unraw.files = (withMarkedNames "r#").unraw.files ∧
        (∀ mark ∈ ["", "r#"], ∀ as ∈ (withMarkedNames mark).cfgLists, ∀ a ∈ as,
          a.name.unraw.isWord "cfg" = true → a.unraw = a) ∧
        ((withMarkedNames "").extract ⟨["a", "b"]⟩ "crate" .never).descriptors =
          [⟨"crate::C", none⟩] ∧
        (withMarkedNames "").mentions "a" = (withMarkedNames "r#").mentions "a" := by
    decide +kernel
  have hunraw : (withMarkedNames "").unraw = (withMarkedNames "r#").unraw :=
    unraw_eq_of_files hfiles
  have hplain : (withMarkedNames "").ReadsAlike := .of_unmarked (hunmarked "" (by decide))
  have hmarked : (withMarkedNames "r#").ReadsAlike := .of_unmarked (hunmarked "r#" (by decide))
  obtain ⟨-, hiff⟩ :=
    descriptors_eq_iff_of_unraw_eq hunraw hplain hmarked ⟨["a", "b"]⟩ "crate" .never
  exact ⟨hunraw, hplain, hmarked, hfound, (hiff.mpr (.inl hmentions)).symm.trans hfound⟩

/-- A program with a mark before the word `cfg`. -/
def withMarkedCfg (mark : String) : Program :=
  ofRootText .none ("use a::b;\n#[" ++ mark ++ "cfg(any())]\n#[b]\npub enum C { D }")

/-- An attribute is taken for a condition by the word `cfg` alone: with a raw mark it is ignored. -/
theorem descriptors_ne_withMarkedCfg :
    (withMarkedCfg "").unraw = (withMarkedCfg "r#").unraw ∧
      ((withMarkedCfg "").extract ⟨["a", "b"]⟩ "crate" .never).descriptors = [] ∧
      ((withMarkedCfg "r#").extract ⟨["a", "b"]⟩ "crate" .never).descriptors =
        [⟨"crate::C", none⟩] := by
  obtain ⟨hfiles, hplain, hmarked⟩ :
      (withMarkedCfg "").unraw.files = (withMarkedCfg "r#").unraw.files ∧
        ((withMarkedCfg "").extract ⟨["a", "b"]⟩ "crate" .never).descriptors = [] ∧
        ((withMarkedCfg "r#").extract ⟨["a", "b"]⟩ "crate" .never).descriptors =
          [⟨"crate::C", none⟩] := by
    decide +kernel
  exact ⟨unraw_eq_of_files hfiles, hplain, hmarked⟩

end Program

end EnumCatalog
