/-!
# Maps that remember insertion order

Both registries answer in the order in which things were first registered, and a second
registration under the same key replaces the entry where it stands. That is one data structure, an
association list without repeated keys, so it is built once here.

`put` is the only way to change a map. Its laws are stated on the view `toList`: it keeps the order
of the keys, adds a new key at the end, and changes no other entry.
-/

set_option autoImplicit false

namespace EnumCatalog

variable {κ α : Type} [DecidableEq κ]

/-- An association list under `put`: the entry of the key is replaced, or added at the end. -/
def putEntry (k : κ) (a : α) : List (κ × α) → List (κ × α)
  | [] => [(k, a)]
  | (k', a') :: rest => if k' = k then (k, a) :: rest else (k', a') :: putEntry k a rest

theorem keys_putEntry (k : κ) (a : α) (l : List (κ × α)) :
    (putEntry k a l).map Prod.fst =
      if k ∈ l.map Prod.fst then l.map Prod.fst else l.map Prod.fst ++ [k] := by
  induction l with
  | nil => simp [putEntry]
  | cons e rest ih =>
    obtain ⟨k', a'⟩ := e
    by_cases h : k' = k
    · simp [putEntry, h]
    · have h' : ¬ k = k' := fun e => h e.symm
      by_cases hm : k ∈ rest.map Prod.fst
      · rw [if_pos hm] at ih
        rw [if_pos (by simp only [List.map_cons, List.mem_cons]; exact .inr hm)]
        simp [putEntry, h, ih]
      · rw [if_neg hm] at ih
        rw [if_neg (by simp only [List.map_cons, List.mem_cons, not_or]; exact ⟨h', hm⟩)]
        simp [putEntry, h, ih]

theorem nodup_keys_putEntry {k : κ} {a : α} {l : List (κ × α)} (h : (l.map Prod.fst).Nodup) :
    ((putEntry k a l).map Prod.fst).Nodup := by
  rw [keys_putEntry]
  split
  · exact h
  · next hm =>
    rw [List.nodup_append]
    exact ⟨h, by simp, by intro x hx y hy e; simp at hy; subst hy; subst e; exact hm hx⟩

theorem lookup_putEntry (k k' : κ) (a : α) (l : List (κ × α)) :
    (putEntry k a l).lookup k' = if k' = k then some a else l.lookup k' := by
  induction l with
  | nil =>
    by_cases h : k' = k
    · simp [putEntry, h]
    · have hb : (k' == k) = false := beq_false_of_ne h
      simp [putEntry, List.lookup_cons, h, hb]
  | cons e rest ih =>
    obtain ⟨l, b⟩ := e
    by_cases hl : l = k
    · subst hl
      by_cases h : k' = l
      · simp [putEntry, h]
      · have hb : (k' == l) = false := beq_false_of_ne h
        simp [putEntry, List.lookup_cons, h, hb]
    · by_cases h' : k' = l
      · subst h'
        simp [putEntry, hl]
      · have hb : (k' == l) = false := beq_false_of_ne h'
        simp [putEntry, hl, List.lookup_cons, hb, ih]

/-- A finite map whose entries stand in the order in which their keys were first put. -/
structure Ordered (κ α : Type) [DecidableEq κ] where
  entries : List (κ × α)
  nodup_keys : (entries.map Prod.fst).Nodup

namespace Ordered

def empty : Ordered κ α := ⟨[], by simp⟩

/-- Puts an entry in the place of the one with its key, or at the end. -/
def put (m : Ordered κ α) (k : κ) (a : α) : Ordered κ α :=
  ⟨putEntry k a m.entries, nodup_keys_putEntry m.nodup_keys⟩

def get? (m : Ordered κ α) (k : κ) : Option α := m.entries.lookup k

/-- The values in the order of their keys. -/
def values (m : Ordered κ α) : List α := m.entries.map Prod.snd

def size (m : Ordered κ α) : Nat := m.entries.length

@[simp] theorem get?_empty (k : κ) : (empty : Ordered κ α).get? k = none := rfl

@[simp] theorem get?_put (m : Ordered κ α) (k k' : κ) (a : α) :
    (m.put k a).get? k' = if k' = k then some a else m.get? k' :=
  lookup_putEntry k k' a m.entries

end Ordered

end EnumCatalog
