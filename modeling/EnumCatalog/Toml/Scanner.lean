/-!
# Reading characters

A `Scanner` reads from the front of a text or fails. The lexical rules of TOML never need to know
why a text is wrong, only that it is.
-/

set_option autoImplicit false

namespace EnumCatalog.Toml

/-- Reads from the front of a text, or fails. -/
abbrev Scanner := StateT (List Char) Option

namespace Scanner

/-- Runs a scanner on all of a text. -/
def run? {α : Type} (r : Scanner α) (text : List Char) : Option α :=
  match StateT.run r text with
  | some (a, []) => some a
  | _ => none

def require (b : Bool) : Scanner Unit := if b then pure () else failure

/-- Whether what is ahead opens with a text. -/
def sees (s : String) : Scanner Bool := do return s.toList.isPrefixOf (← get)

/-- Whether the next character satisfies a test. -/
def seesChar (test : Char → Bool) : Scanner Bool := do return (← get).head?.any test

def atEnd : Scanner Bool := do return (← get).isEmpty

/-- Reads a text if it is there, and says whether it was. -/
def skip? (s : String) : Scanner Bool := do
  if ← sees s then modify (·.drop s.length); return true else return false

def skip (s : String) : Scanner Unit := do require (← skip? s)

/-- Reads a character that satisfies a test. -/
def char (test : Char → Bool) : Scanner Char := do
  match ← get with
  | c :: rest => require (test c); set rest; return c
  | [] => failure

/-- Reads a character that satisfies a test, if there is one. -/
def char? (test : Char → Bool) : Scanner (Option Char) := do
  if ← seesChar test then return some (← char test) else return none

/-- Reads so many characters that satisfy a test. -/
def chars (n : Nat) (test : Char → Bool) : Scanner (List Char) := do
  let cs := (← get).take n
  require (cs.length == n && cs.all test)
  modify (·.drop n)
  return cs

/-- Reads all characters up to the first that does not satisfy a test. -/
def charsWhile (test : Char → Bool) : Scanner (List Char) := do
  let cs ← get
  set (cs.dropWhile test)
  return cs.takeWhile test

/-- Collects what a scanner finds for as long as it finds something. Each round reads at least one
character, so as many rounds are granted as there are characters ahead, and one to find the end. -/
def collect {α : Type} (r : Scanner (Option α)) : Scanner (List α) := do
  rounds ((← get).length + 1)
where
  rounds : Nat → Scanner (List α)
    | 0 => failure
    | n + 1 => do
      match ← r with
      | some a => return a :: (← rounds n)
      | none => return []

end Scanner

end EnumCatalog.Toml
