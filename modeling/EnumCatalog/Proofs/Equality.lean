import EnumCatalog.ModuleTree
import EnumCatalog.Program

/-!
# Equality of syntax

Whether two syntax trees are the same can be decided. Three kinds of trees hold lists of their own
kind: tokens, the trees of `use` declarations, and items. For each of them there is a test that goes
through the tree and its lists (`same`), which is then shown to say what it should (`same_iff`). All
other kinds follow from these, and so does the equality of source files with their modules.
-/

set_option autoImplicit false

namespace EnumCatalog

/-! ## 1. Tokens -/

namespace Token

mutual

/-- Whether two tokens are the same. -/
def same : Token → Token → Bool
  | .ident i, .ident j => i == j
  | .lifetime i, .lifetime j => i == j
  | .punct c joint, .punct c' joint' => c == c' && joint == joint'
  | .literal text, .literal text' => text == text'
  | .group d inner, .group d' inner' => d == d' && sameAll inner inner'
  | _, _ => false

/-- Whether two lists of tokens are the same. -/
def sameAll : List Token → List Token → Bool
  | [], [] => true
  | t :: ts, t' :: ts' => same t t' && sameAll ts ts'
  | _, _ => false

end

mutual

theorem same_iff (t t' : Token) : same t t' = true ↔ t = t' := by
  cases t with
  | group d inner =>
    cases t' with
    | group d' inner' => simp [same, sameAll_iff inner inner']
    | _ => simp [same]
  | _ => cases t' <;> simp [same]

theorem sameAll_iff (ts ts' : List Token) : sameAll ts ts' = true ↔ ts = ts' := by
  cases ts with
  | nil => cases ts' <;> simp [sameAll]
  | cons t ts =>
    cases ts' with
    | nil => simp [sameAll]
    | cons t' ts' => simp [sameAll, same_iff t t', sameAll_iff ts ts']

end

instance : DecidableEq Token := fun t t' => decidable_of_iff _ (same_iff t t')

end Token

namespace Syntax

deriving instance DecidableEq for Fragment
deriving instance DecidableEq for GenericArgs
deriving instance DecidableEq for Segment
deriving instance DecidableEq for Path
deriving instance DecidableEq for Meta
deriving instance DecidableEq for Attribute
deriving instance DecidableEq for Visibility
deriving instance DecidableEq for Fields
deriving instance DecidableEq for Variant
deriving instance DecidableEq for Enum

/-! ## 2. Trees of `use` declarations -/

namespace UseTree

mutual

/-- Whether two trees are the same. -/
def same : UseTree → UseTree → Bool
  | .path i rest, .path i' rest' => i == i' && same rest rest'
  | .name i, .name i' => i == i'
  | .rename i r, .rename i' r' => i == i' && r == r'
  | .glob, .glob => true
  | .group ts trailing, .group ts' trailing' => sameAll ts ts' && trailing == trailing'
  | _, _ => false

/-- Whether two lists of trees are the same. -/
def sameAll : List UseTree → List UseTree → Bool
  | [], [] => true
  | t :: ts, t' :: ts' => same t t' && sameAll ts ts'
  | _, _ => false

end

mutual

theorem same_iff (t t' : UseTree) : same t t' = true ↔ t = t' := by
  cases t with
  | path i rest =>
    cases t' with
    | path i' rest' => simp [same, same_iff rest rest']
    | _ => simp [same]
  | group ts trailing =>
    cases t' with
    | group ts' trailing' => simp [same, sameAll_iff ts ts']
    | _ => simp [same]
  | _ => cases t' <;> simp [same]

theorem sameAll_iff (ts ts' : List UseTree) : sameAll ts ts' = true ↔ ts = ts' := by
  cases ts with
  | nil => cases ts' <;> simp [sameAll]
  | cons t ts =>
    cases ts' with
    | nil => simp [sameAll]
    | cons t' ts' => simp [sameAll, same_iff t t', sameAll_iff ts ts']

end

instance : DecidableEq UseTree := fun t t' => decidable_of_iff _ (same_iff t t')

end UseTree

deriving instance DecidableEq for Use
deriving instance DecidableEq for ExternCrate
deriving instance DecidableEq for ModuleHead

/-! ## 3. Items -/

namespace Item

mutual

/-- Whether two items are the same. -/
def same : Item → Item → Bool
  | .enum e, .enum e' => e == e'
  | .fileModule h, .fileModule h' => h == h'
  | .inlineModule h items, .inlineModule h' items' => h == h' && sameAll items items'
  | .use u, .use u' => u == u'
  | .externCrate x, .externCrate x' => x == x'
  | .other f, .other f' => f == f'
  | _, _ => false

/-- Whether two lists of items are the same. -/
def sameAll : List Item → List Item → Bool
  | [], [] => true
  | i :: is, i' :: is' => same i i' && sameAll is is'
  | _, _ => false

end

mutual

theorem same_iff (i i' : Item) : same i i' = true ↔ i = i' := by
  cases i with
  | inlineModule h items =>
    cases i' with
    | inlineModule h' items' => simp [same, sameAll_iff items items']
    | _ => simp [same]
  | _ => cases i' <;> simp [same]

theorem sameAll_iff (is is' : List Item) : sameAll is is' = true ↔ is = is' := by
  cases is with
  | nil => cases is' <;> simp [sameAll]
  | cons i is =>
    cases is' with
    | nil => simp [sameAll]
    | cons i' is' => simp [sameAll, same_iff i i', sameAll_iff is is']

end

instance : DecidableEq Item := fun i i' => decidable_of_iff _ (same_iff i i')

end Item

deriving instance DecidableEq for SourceFile

end Syntax

/-! ## 4. Source files with their modules -/

deriving instance DecidableEq for Pending
deriving instance DecidableEq for TreeFile
deriving instance DecidableEq for SourceUnit

end EnumCatalog
