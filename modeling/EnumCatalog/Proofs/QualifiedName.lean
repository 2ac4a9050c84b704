import EnumCatalog.ModulePath
import Mathlib.Data.List.Basic

/-!
# Qualified names

A qualified name is written out as one text, and the text is all that is left of the module and the
name. For it to stand for one item only, the module and the name have to be readable off it again
(`qualify_injective`).

That is so because names are identifiers. An identifier has no colon in it, so the text falls apart
at its double colons in one way only; and it has no number sign in it, so a raw mark in front is not
a part of the name.
-/

set_option autoImplicit false

namespace EnumCatalog

/-! ## 1. Names that are identifiers -/

/-- A name as the lexer makes them: an identifier without raw mark. -/
def IsIdentName (n : String) : Prop := Text.isIdentText n.toList = true

namespace ModulePath

/-- Every name on the way from the crate root is an identifier. -/
def IsNamed (p : ModulePath) : Prop := ∀ n ∈ p.names, IsIdentName n

theorem isNamed_root : root.IsNamed := by
  intro n hn
  cases hn

theorem IsNamed.child {p : ModulePath} {n : String} (hp : p.IsNamed) (hn : IsIdentName n) :
    (p.child n).IsNamed := by
  intro a ha
  rcases List.mem_append.mp ha with ha | ha
  · exact hp a ha
  · rw [List.mem_singleton.mp ha]
    exact hn

end ModulePath

theorem isIdentName_ident (i : Ident) : IsIdentName i.name := i.isText

theorem IsIdentName.not_mem {n : String} {c : Char} (h : IsIdentName n)
    (hc : Text.continuesIdent c = false) : c ∉ n.toList := by
  intro hmem
  have := Text.continuesIdent_of_isIdentText h c hmem
  rw [hc] at this
  cases this

theorem IsIdentName.colon_not_mem {n : String} (h : IsIdentName n) : ':' ∉ n.toList :=
  h.not_mem (by decide)

theorem IsIdentName.numberSign_not_mem {n : String} (h : IsIdentName n) : '#' ∉ n.toList :=
  h.not_mem (by decide)

/-! ## 2. Segments -/

namespace ModulePath

theorem segmentText_eq_or (n : String) : segmentText n = n ∨ segmentText n = "r#" ++ n := by
  unfold segmentText
  split
  · exact Or.inl rfl
  · exact Or.inr rfl

theorem colon_not_mem_segmentText {n : String} (h : IsIdentName n) :
    ':' ∉ (segmentText n).toList := by
  have hraw : "r#".toList = ['r', '#'] := rfl
  rcases segmentText_eq_or n with hs | hs
  · rw [hs]
    exact h.colon_not_mem
  · rw [hs, String.toList_append, hraw]
    simpa using h.colon_not_mem

/-- A raw mark shows: no identifier without one reads like an identifier with one. -/
theorem rawMark_append_ne {a b : String} (hb : IsIdentName b) : "r#" ++ a ≠ b := by
  intro h
  apply hb.numberSign_not_mem
  rw [← h, String.toList_append]
  exact List.mem_append_left _ (by decide)

theorem segmentText_injective {a b : String} (ha : IsIdentName a) (hb : IsIdentName b)
    (h : segmentText a = segmentText b) : a = b := by
  rcases segmentText_eq_or a with ea | ea <;> rcases segmentText_eq_or b with eb | eb <;>
    rw [ea, eb] at h
  · exact h
  · exact absurd h.symm (rawMark_append_ne ha)
  · exact absurd h (rawMark_append_ne hb)
  · exact (String.append_right_inj _).mp h

theorem map_segmentText_injective {as bs : List String} (ha : ∀ n ∈ as, IsIdentName n)
    (hb : ∀ n ∈ bs, IsIdentName n) (h : as.map segmentText = bs.map segmentText) : as = bs := by
  induction as generalizing bs with
  | nil => exact (List.map_eq_nil_iff.mp h.symm).symm
  | cons a as ih =>
    cases bs with
    | nil => simp at h
    | cons b bs =>
      rw [List.map_cons, List.map_cons, List.cons.injEq] at h
      rw [segmentText_injective (ha a List.mem_cons_self) (hb b List.mem_cons_self) h.1,
        ih (fun n hn => ha n (List.mem_cons_of_mem _ hn))
          (fun n hn => hb n (List.mem_cons_of_mem _ hn)) h.2]

/-! ## 3. Texts between double colons -/

/-- A text without colons is read off again in front of a double colon. -/
theorem append_colons_injective {a b s t : List Char} (ha : ':' ∉ a) (hb : ':' ∉ b)
    (h : a ++ ':' :: s = b ++ ':' :: t) : a = b ∧ s = t := by
  induction a generalizing b with
  | nil =>
    cases b with
    | nil => exact ⟨rfl, List.tail_eq_of_cons_eq h⟩
    | cons c b =>
      have hc : ':' = c := List.head_eq_of_cons_eq h
      exact absurd (hc ▸ List.mem_cons_self) hb
  | cons c a ih =>
    cases b with
    | nil =>
      have hc : c = ':' := List.head_eq_of_cons_eq h
      exact absurd (hc ▸ List.mem_cons_self) ha
    | cons d b =>
      have hcd : c = d := List.head_eq_of_cons_eq h
      obtain ⟨hab, hst⟩ := ih (List.not_mem_of_not_mem_cons ha) (List.not_mem_of_not_mem_cons hb)
        (List.tail_eq_of_cons_eq h)
      exact ⟨by rw [hcd, hab], hst⟩

/-- Texts without colons are read off again from between double colons. -/
theorem intercalate_colons_injective {xs ys : List (List Char)} (hx : ∀ x ∈ xs, ':' ∉ x)
    (hy : ∀ y ∈ ys, ':' ∉ y) (hnx : xs ≠ []) (hny : ys ≠ [])
    (h : List.intercalate [':', ':'] xs = List.intercalate [':', ':'] ys) : xs = ys := by
  have colon_mem (b y : List Char) (ys : List (List Char)) :
      ':' ∈ List.intercalate [':', ':'] (b :: y :: ys) := by
    rw [List.intercalate_cons_cons]
    simp
  induction xs generalizing ys with
  | nil => exact absurd rfl hnx
  | cons a xs ih =>
    cases ys with
    | nil => exact absurd rfl hny
    | cons b ys =>
      -- One text alone has no colon, so both lists end at the same time.
      cases xs with
      | nil =>
        cases ys with
        | nil => simpa using h
        | cons y ys =>
          rw [List.intercalate_singleton] at h
          exact absurd (h ▸ colon_mem b y ys) (hx a List.mem_cons_self)
      | cons x xs =>
        cases ys with
        | nil =>
          rw [List.intercalate_singleton] at h
          exact absurd (h ▸ colon_mem a x xs) (hy b List.mem_cons_self)
        | cons y ys =>
          rw [List.intercalate_cons_cons, List.intercalate_cons_cons] at h
          obtain ⟨hab, hrest⟩ := append_colons_injective (hx a List.mem_cons_self)
            (hy b List.mem_cons_self) (by simpa using h)
          have htail : List.intercalate [':', ':'] (x :: xs) =
              List.intercalate [':', ':'] (y :: ys) :=
            List.tail_eq_of_cons_eq hrest
          rw [hab, ih (fun z hz => hx z (List.mem_cons_of_mem _ hz))
            (fun z hz => hy z (List.mem_cons_of_mem _ hz)) (by simp) (by simp) htail]

/-! ## 4. Qualified names -/

theorem qualify_eq (p : ModulePath) (crateName item : String) :
    p.qualify crateName item =
      crateName ++ "::" ++ String.intercalate "::" ((p.names ++ [item]).map segmentText) := by
  unfold qualify
  rw [String.intercalate_cons_of_ne_nil (by simp)]

/-- The module and the name of an item are read off its qualified name. -/
theorem qualify_injective {crateName : String} {p q : ModulePath} {a b : String}
    (hp : p.IsNamed) (hq : q.IsNamed) (ha : IsIdentName a) (hb : IsIdentName b)
    (h : p.qualify crateName a = q.qualify crateName b) : p = q ∧ a = b := by
  have named {p : ModulePath} {a : String} (hp : p.IsNamed) (ha : IsIdentName a) :
      ∀ n ∈ p.names ++ [a], IsIdentName n := (hp.child ha)
  have texts {ns : List String} (hns : ∀ n ∈ ns, IsIdentName n) :
      ∀ t ∈ (ns.map segmentText).map String.toList, ':' ∉ t := by
    intro t ht
    rw [List.map_map, List.mem_map] at ht
    obtain ⟨n, hn, rfl⟩ := ht
    exact colon_not_mem_segmentText (hns n hn)
  have hcolons : "::".toList = [':', ':'] := rfl
  rw [qualify_eq, qualify_eq, String.append_right_inj, ← String.toList_inj,
    String.toList_intercalate, String.toList_intercalate, hcolons] at h
  have hsegs := intercalate_colons_injective (texts (named hp ha)) (texts (named hq hb))
    (by simp) (by simp) h
  have hnames : p.names ++ [a] = q.names ++ [b] :=
    map_segmentText_injective (named hp ha) (named hq hb)
      (List.map_injective_iff.mpr (fun _ _ => String.toList_injective) hsegs)
  obtain ⟨hpq, hab⟩ := List.append_inj' hnames rfl
  exact ⟨by cases p; cases q; cases hpq; rfl, by simpa using hab⟩

end ModulePath

end EnumCatalog
