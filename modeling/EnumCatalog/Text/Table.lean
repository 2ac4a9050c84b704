/-!
# Tables of characters

A character class that reaches past ASCII is data: a list of stretches of code points. The classes
themselves stand in the modules that use them (`Text/IdentChar`, `Text/Letter`,
`Text/CaseMap`, `Text/Escape`); this file says what it is for a code point to lie in a table,
so that every class is looked up the same way.

ASCII is never put in a table. Each class answers for it by a rule of its own, which is what makes
the common case fast and lets a proof about plain names ignore the tables.
-/

set_option autoImplicit false

namespace EnumCatalog.Text

/-- A stretch of consecutive code points, first and last included. -/
abbrev Stretch := Nat × Nat

/-- Whether one of the stretches covers the code point. -/
def covered (table : List Stretch) (n : Nat) : Bool :=
  table.any fun s => s.1 ≤ n && n ≤ s.2

/-- Code points from `first` to `last` in steps of `step`: cased letters often alternate, so a
step of two covers one case of a whole alphabet. -/
structure Stride where
  first : Nat
  last : Nat
  step : Nat

/-- Whether the stride meets the code point. -/
def Stride.meets (s : Stride) (n : Nat) : Bool :=
  s.first ≤ n && n ≤ s.last && (n - s.first) % s.step == 0

/-- Whether one of the strides, written `(first, last, step)`, meets the code point. -/
def strided (table : List (Nat × Nat × Nat)) (n : Nat) : Bool :=
  table.any fun s => Stride.meets ⟨s.1, s.2.1, s.2.2⟩ n

end EnumCatalog.Text
