import EnumCatalog.Proofs.Site

/-!
# Mentions

Which crates a program may refer to is read off the fragments of its items, so what is mentioned by
a list of items is what is mentioned around a site and at it (`Item.mem_mentions_fill_iff`). A module in
braces mentions what its head does and what a file with its items would
(`Item.mem_mentions_inBraces_iff`).
-/

set_option autoImplicit false

namespace EnumCatalog.Syntax

namespace Item

@[simp] theorem mentions_fragmentAll_append (xs ys : List Item) :
    (fragmentAll (xs ++ ys)).mentions = (fragmentAll xs).mentions ++ (fragmentAll ys).mentions := by
  induction xs with
  | nil => rfl
  | cons i xs ih => simp [fragmentAll, ih]

@[simp] theorem mentions_fragmentAll_nil : (fragmentAll []).mentions = [] := rfl

@[simp] theorem mentions_fragmentAll_cons (i : Item) (xs : List Item) :
    (fragmentAll (i :: xs)).mentions = i.fragment.mentions ++ (fragmentAll xs).mentions := rfl

@[simp] theorem mentions_fragment_inlineModule (h : ModuleHead) (xs : List Item) :
    (fragment (.inlineModule h xs)).mentions = h.fragment.mentions ++
      ((innerAttributes h.attrs).mentions ++ (fragmentAll xs).mentions) := rfl

theorem mem_mentions_fill_iff {s : Site} {xs : List Item} {name : String} :
    name ∈ (fragmentAll (s.fill xs)).mentions ↔
      name ∈ (fragmentAll (s.fill [])).mentions ∨ name ∈ (fragmentAll xs).mentions := by
  induction s with
  | here before after =>
    simp only [Site.fill, mentions_fragmentAll_append, List.append_nil, List.mem_append]
    exact or_right_comm
  | within before h s after ih =>
    simp only [Site.fill, mentions_fragmentAll_append, mentions_fragmentAll_cons,
      mentions_fragment_inlineModule, List.mem_append, ih]
    simp only [or_assoc, or_comm, or_left_comm]

end Item

/-! ## Modules -/

theorem outerAttributes_append {as bs : List Attribute} (h : ∀ a ∈ bs, a.inner = true) :
    outerAttributes (as ++ bs) = outerAttributes as := by
  have hnil : bs.filter (!·.inner) = [] := by
    rw [List.filter_eq_nil_iff]
    intro a ha
    simp [h a ha]
  rw [outerAttributes, outerAttributes, List.filter_append, hnil, List.append_nil]

theorem innerAttributes_append {as bs : List Attribute} (h : ∀ a ∈ as, a.inner = false) :
    innerAttributes (as ++ bs) = innerAttributes bs := by
  have hnil : as.filter (·.inner) = [] := by
    rw [List.filter_eq_nil_iff]
    intro a ha
    simp [h a ha]
  rw [innerAttributes, innerAttributes, List.filter_append, hnil, List.nil_append]

theorem Item.mem_mentions_inBraces_iff {h : ModuleHead} {f : SourceFile} {name : String}
    (hhead : ∀ a ∈ h.attrs, a.inner = false) (hfile : ∀ a ∈ f.attrs, a.inner = true) :
    name ∈ (Item.inBraces h f).fragment.mentions ↔
      name ∈ (Item.fragment (.fileModule h)).mentions ∨ name ∈ f.mentions := by
  have hsame : (h.around f).fragment = h.fragment := by
    rw [ModuleHead.fragment, ModuleHead.fragment, ModuleHead.around, outerAttributes_append hfile]
  rw [Item.inBraces, Item.mentions_fragment_inlineModule, hsame, ModuleHead.around,
    innerAttributes_append hhead, Item.fragment, SourceFile.mentions, Fragment.mentions_append, Fragment.mentions_append]
  simp [Fragment.plain]

end EnumCatalog.Syntax
