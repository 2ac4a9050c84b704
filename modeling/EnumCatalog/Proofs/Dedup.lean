import EnumCatalog.Program
import Mathlib.Data.List.Basic
import Mathlib.Data.List.Nodup
import Mathlib.Data.List.Forall2

/-!
# Each declaration once

`Candidate.dedup` keeps the first candidate of each key. Everything here is proved of
`dedupAgainst`, whose list of keys that have been seen grows on the way, and then read off for the
empty list. The keys that have been seen matter only as a set (`dedupAgainst_congr`), which is what
lets a list of candidates be cut in two.
-/

set_option autoImplicit false

namespace EnumCatalog.Candidate

variable {seen : List Key} {c : Candidate} {cs : List Candidate}

theorem dedupAgainst_cons_of_mem (h : c.key ∈ seen) :
    dedupAgainst seen (c :: cs) = dedupAgainst seen cs := by
  rw [dedupAgainst, if_pos (List.contains_iff_mem.mpr h)]

theorem dedupAgainst_cons_of_not_mem (h : c.key ∉ seen) :
    dedupAgainst seen (c :: cs) = c :: dedupAgainst (c.key :: seen) cs := by
  rw [dedupAgainst, if_neg (fun hc => h (List.contains_iff_mem.mp hc))]

/-! ## 1. What is kept -/

theorem dedupAgainst_sublist (seen : List Key) (cs : List Candidate) :
    (dedupAgainst seen cs).Sublist cs := by
  induction cs generalizing seen with
  | nil => exact List.Sublist.refl []
  | cons c cs ih =>
    by_cases h : c.key ∈ seen
    · rw [dedupAgainst_cons_of_mem h]
      exact (ih seen).cons c
    · rw [dedupAgainst_cons_of_not_mem h]
      exact (ih (c.key :: seen)).cons_cons c

theorem dedup_sublist (cs : List Candidate) : (dedup cs).Sublist cs := dedupAgainst_sublist [] cs

theorem mem_of_mem_dedup (h : c ∈ dedup cs) : c ∈ cs := (dedup_sublist cs).subset h

/-- What is kept is the first of its key, and its key has not been seen before. -/
theorem mem_dedupAgainst_iff :
    c ∈ dedupAgainst seen cs ↔ c.key ∉ seen ∧ cs.find? (·.key == c.key) = some c := by
  -- Candidate by candidate; the keys of those that are kept are seen by all that follow.
  induction cs generalizing seen with
  | nil => simp [dedupAgainst]
  | cons a cs ih =>
    by_cases ha : a.key ∈ seen
    · rw [dedupAgainst_cons_of_mem ha, ih]
      refine and_congr_right fun hc => ?_
      have hne : a.key ≠ c.key := fun h => hc (h ▸ ha)
      rw [List.find?_cons_of_neg (by simpa using hne)]
    · rw [dedupAgainst_cons_of_not_mem ha, List.mem_cons, ih]
      by_cases hk : a.key = c.key
      · rw [List.find?_cons_of_pos (by simpa using hk), Option.some.injEq]
        constructor
        · rintro (rfl | ⟨hc, -⟩)
          · exact ⟨ha, rfl⟩
          · exact absurd (hk ▸ List.mem_cons_self) hc
        · rintro ⟨-, rfl⟩
          exact Or.inl rfl
      · rw [List.find?_cons_of_neg (by simpa using hk), List.mem_cons, not_or]
        constructor
        · rintro (rfl | ⟨⟨-, hs⟩, hf⟩)
          · exact absurd rfl hk
          · exact ⟨hs, hf⟩
        · rintro ⟨hs, hf⟩
          exact Or.inr ⟨⟨fun h => hk h.symm, hs⟩, hf⟩

/-- A candidate is kept if it is the first of its key. -/
theorem mem_dedup_iff : c ∈ dedup cs ↔ cs.find? (·.key == c.key) = some c := by
  rw [dedup, mem_dedupAgainst_iff]
  exact and_iff_right List.not_mem_nil

/-! ## 2. Keys -/

theorem nodup_keys_dedup (cs : List Candidate) : ((dedup cs).map key).Nodup := by
  suffices h : ∀ seen, ((dedupAgainst seen cs).map key).Nodup from h []
  induction cs with
  | nil => exact fun _ => List.nodup_nil
  | cons c cs ih =>
    intro seen
    by_cases hc : c.key ∈ seen
    · rw [dedupAgainst_cons_of_mem hc]
      exact ih seen
    · rw [dedupAgainst_cons_of_not_mem hc, List.map_cons]
      refine List.nodup_cons.mpr ⟨fun hmem => ?_, ih (c.key :: seen)⟩
      obtain ⟨a, ha, hk⟩ := List.mem_map.mp hmem
      exact (mem_dedupAgainst_iff.mp ha).1 (hk ▸ List.mem_cons_self)

/-- Every key that occurs is kept. -/
theorem exists_mem_dedup_of_mem (h : c ∈ cs) : ∃ a ∈ dedup cs, a.key = c.key := by
  obtain ⟨a, ha⟩ := Option.isSome_iff_exists.mp
    (List.find?_isSome (p := (·.key == c.key)).mpr ⟨c, h, beq_self_eq_true c.key⟩)
  have hk : a.key = c.key := by simpa using List.find?_some ha
  exact ⟨a, mem_dedup_iff.mpr (hk ▸ ha), hk⟩

/-! ## 3. Cutting a list in two -/

/-- Of the keys that have been seen it only matters which they are. -/
theorem dedupAgainst_congr {seen seen' : List Key} {cs : List Candidate}
    (h : ∀ c ∈ cs, (c.key ∈ seen ↔ c.key ∈ seen')) :
    dedupAgainst seen cs = dedupAgainst seen' cs := by
  induction cs generalizing seen seen' with
  | nil => rfl
  | cons c cs ih =>
    have hc := h c List.mem_cons_self
    have hrest : ∀ a ∈ cs, (a.key ∈ seen ↔ a.key ∈ seen') :=
      fun a ha => h a (List.mem_cons_of_mem c ha)
    by_cases hs : c.key ∈ seen
    · rw [dedupAgainst_cons_of_mem hs, dedupAgainst_cons_of_mem (hc.mp hs), ih hrest]
    · rw [dedupAgainst_cons_of_not_mem hs, dedupAgainst_cons_of_not_mem (fun h => hs (hc.mpr h))]
      congr 1
      refine ih fun a ha => ?_
      rw [List.mem_cons, List.mem_cons, hrest a ha]

theorem dedupAgainst_append (seen : List Key) (as bs : List Candidate) :
    dedupAgainst seen (as ++ bs) =
      dedupAgainst seen as ++ dedupAgainst (as.map key ++ seen) bs := by
  induction as generalizing seen with
  | nil => rfl
  | cons a as ih =>
    rw [List.cons_append]
    by_cases ha : a.key ∈ seen
    · rw [dedupAgainst_cons_of_mem ha, dedupAgainst_cons_of_mem ha, ih]
      congr 1
      refine dedupAgainst_congr fun c _ => ?_
      rw [List.map_cons, List.cons_append, List.mem_cons, List.mem_append]
      constructor
      · exact Or.inr
      · rintro (h | h)
        · exact Or.inr (h ▸ ha)
        · exact h
    · rw [dedupAgainst_cons_of_not_mem ha, dedupAgainst_cons_of_not_mem ha, ih, List.cons_append]
      congr 2
      refine dedupAgainst_congr fun c _ => ?_
      rw [List.map_cons, List.cons_append, List.mem_cons, List.mem_append, List.mem_append,
        List.mem_cons]
      exact or_left_comm

theorem dedupAgainst_eq_nil {seen : List Key} {cs : List Candidate} (h : ∀ c ∈ cs, c.key ∈ seen) :
    dedupAgainst seen cs = [] := by
  induction cs with
  | nil => rfl
  | cons c cs ih =>
    obtain ⟨hc, hcs⟩ := List.forall_mem_cons.mp h
    rw [dedupAgainst_cons_of_mem hc, ih hcs]

/-- Candidates that repeat others before them are not kept, and nothing else is left out for them. -/
theorem dedup_append_of_keys {as xs : List Candidate} (bs : List Candidate)
    (h : ∀ x ∈ xs, ∃ a ∈ as, a.key = x.key) : dedup (as ++ xs ++ bs) = dedup (as ++ bs) := by
  have hkey : ∀ x ∈ xs, x.key ∈ as.map key ++ [] := fun x hx => by
    obtain ⟨a, ha, hk⟩ := h x hx
    exact List.mem_append_left [] (hk ▸ List.mem_map_of_mem ha)
  unfold dedup
  rw [List.append_assoc, dedupAgainst_append, dedupAgainst_append, dedupAgainst_append,
    dedupAgainst_eq_nil hkey, List.nil_append]
  congr 1
  refine dedupAgainst_congr fun c _ => ?_
  rw [List.mem_append, or_iff_right_iff_imp]
  intro hc
  obtain ⟨x, hx, hk⟩ := List.mem_map.mp hc
  exact hk ▸ hkey x hx

/-- Candidates of keys that occur nowhere around may as well stand by themselves. -/
theorem dedup_append_append {as xs bs : List Candidate}
    (h : ∀ x ∈ xs, ∀ c ∈ as ++ bs, x.key ≠ c.key) :
    (dedup (as ++ xs ++ bs)).Perm (dedup xs ++ dedup (as ++ bs)) := by
  have hxs : dedupAgainst (as.map key ++ []) xs = dedup xs := by
    refine dedupAgainst_congr fun x hx => ?_
    rw [List.append_nil]
    refine iff_of_false (fun hmem => ?_) List.not_mem_nil
    obtain ⟨a, ha, hk⟩ := List.mem_map.mp hmem
    exact h x hx a (List.mem_append_left bs ha) hk.symm
  have hbs : dedupAgainst ((as ++ xs).map key ++ []) bs = dedupAgainst (as.map key ++ []) bs := by
    refine dedupAgainst_congr fun b hb => ?_
    rw [List.append_nil, List.append_nil, List.map_append, List.mem_append]
    refine or_iff_left fun hmem => ?_
    obtain ⟨x, hx, hk⟩ := List.mem_map.mp hmem
    exact h x hx b (List.mem_append_right as hb) hk
  unfold dedup at *
  rw [dedupAgainst_append, dedupAgainst_append, dedupAgainst_append, hxs, hbs]
  rw [List.append_assoc]
  exact List.perm_append_comm_assoc _ _ _

/-! ## 4. Lists of the same keys -/

/-- Lists whose candidates agree in their keys keep the same places. -/
theorem forall₂_dedup {R : Candidate → Candidate → Prop} (hkey : ∀ a b, R a b → a.key = b.key)
    {as bs : List Candidate} (h : List.Forall₂ R as bs) : List.Forall₂ R (dedup as) (dedup bs) := by
  suffices hall : ∀ seen, List.Forall₂ R (dedupAgainst seen as) (dedupAgainst seen bs) from hall []
  induction h with
  | nil => exact fun _ => List.Forall₂.nil
  | @cons a b as bs hab _ ih =>
    intro seen
    have hk := hkey a b hab
    by_cases ha : a.key ∈ seen
    · rw [dedupAgainst_cons_of_mem ha, dedupAgainst_cons_of_mem (hk ▸ ha)]
      exact ih seen
    · rw [dedupAgainst_cons_of_not_mem ha, dedupAgainst_cons_of_not_mem (hk ▸ ha), hk]
      exact (ih (b.key :: seen)).cons hab

/-- What leaves the keys alone may come before or after. -/
theorem dedup_map {f : Candidate → Candidate} (hf : ∀ c, (f c).key = c.key) (cs : List Candidate) :
    dedup (cs.map f) = (dedup cs).map f := by
  suffices h : ∀ seen, dedupAgainst seen (cs.map f) = (dedupAgainst seen cs).map f from h []
  induction cs with
  | nil => exact fun _ => rfl
  | cons c cs ih =>
    intro seen
    rw [List.map_cons]
    by_cases hc : c.key ∈ seen
    · rw [dedupAgainst_cons_of_mem hc, dedupAgainst_cons_of_mem (hf c ▸ hc), ih]
    · rw [dedupAgainst_cons_of_not_mem hc, dedupAgainst_cons_of_not_mem (hf c ▸ hc), ih, hf,
        List.map_cons]

end EnumCatalog.Candidate
