import EnumCatalog.Toml.Scalar
import EnumCatalog.Toml.Section

/-!
# TOML documents

A document is a list of lines: headers, and keys with values below them. `parse?` reads a text as
the table that it describes.

Values nest through arrays and inline tables, up to a depth (`maxDepth`).
-/

set_option autoImplicit false

namespace EnumCatalog.Toml

open Scanner

/-- The levels that values may nest. -/
def maxDepth : Nat := 79

/-- Cuts the last part off a key. -/
def splitKey (parts : List String) : List String × String :=
  (parts.dropLast, parts.getLast?.getD "")

/-- Reads a key, an equals sign and, with the given scanner, a value. -/
def keyValue (value : Scanner Value) : Scanner (List String × Value) := do
  let k ← key
  skip "="
  blanks
  return (k, ← value)

/-- The table of keys and values, if it can be built. -/
def Section.ofPairs (pairs : List (List String × Value)) : Option Section :=
  pairs.foldlM (fun s p => s.put (splitKey p.1).1 (splitKey p.1).2 p.2) Section.empty

/-- Reads the rest of an array. Items may be on lines of their own, and a comma may follow the last.
-/
def arrayRest (value : Scanner Value) : Scanner Value := do
  let vs ← collect do
    blankLines
    if ← sees "]" then return none
    let v ← value
    blankLines
    require ((← skip? ",") || (← sees "]"))
    return some v
  skip "]"
  return .array vs

/-- Reads the rest of a table in braces. All of it stands on one line, and no comma follows the last
item. -/
def inlineTableRest (value : Scanner Value) : Scanner Value := do
  blanks
  if ← skip? "\x7d" then return .table []
  let first ← pair
  let others ← collect do
    if ← skip? "," then return some (← pair) else return none
  skip "\x7d"
  match Section.ofPairs (first :: others) with
  | some s => return s.toValue
  | none => failure
where
  pair : Scanner (List String × Value) := do
    let p ← keyValue value
    blanks
    return p

/-- Reads a value, with the given scanner for the values in it; none if it may not nest. -/
def valueOver (inner : Option (Scanner Value)) : Scanner Value := do
  let nested (rest : Scanner Value → Scanner Value) : Scanner Value :=
    match inner with
    | some value => rest value
    | none => failure
  if ← seesChar fun c => c == '"' || c == '\'' then return .string (← string)
  else if ← skip? "[" then nested arrayRest
  else if ← skip? "\x7b" then nested inlineTableRest
  else if ← skip? "true" then return .boolean true
  else if ← skip? "false" then return .boolean false
  else if ← seesDateTime then
    dateTime
    return .dateTime
  else
    number
    return .number

/-- Reads a value that nests up to so many levels. -/
def valueWithin : Nat → Scanner Value
  | 0 => valueOver none
  | n + 1 => valueOver (some (valueWithin n))

/-! ## Lines -/

/-- What a line of a document does. -/
inductive Line where
  | header (path : List String)
  /-- A header in double brackets. -/
  | nextHeader (path : List String)
  | entry (path : List String) (v : Value)

/-- Reads a line that is not blank. -/
def line : Scanner Line := do
  let l ← if ← skip? "[[" then
      let k ← key
      skip "]]"
      pure (Line.nextHeader k)
    else if ← skip? "[" then
      let k ← key
      skip "]"
      pure (Line.header k)
    else
      let (k, v) ← keyValue (valueWithin maxDepth)
      pure (Line.entry k v)
  restOfLine
  return l

/-- Reads the lines of a document. -/
def lines : Scanner (List Line) := do
  collect do
    blankLines
    if ← atEnd then return none else return some (← line)

/-- A document that is being read, and the header that the next lines belong to. -/
structure Draft where
  root : Section
  here : List String

namespace Draft

def empty : Draft := ⟨.empty, []⟩

def add (d : Draft) : Line → Option Draft
  | .header k => do return ⟨← d.root.openTable (splitKey k).1 (splitKey k).2, k⟩
  | .nextHeader k => do return ⟨← d.root.openNext (splitKey k).1 (splitKey k).2, k⟩
  | .entry k v => do
    return { d with
      root := ← d.root.updateAt false d.here fun s => s.put (splitKey k).1 (splitKey k).2 v }

end Draft

/-- The text without a byte order mark. -/
def dropByteOrderMark : List Char → List Char
  | '\uFEFF' :: rest => rest
  | cs => cs

/-- The table that a text describes. -/
def parse? (text : String) : Option Value := do
  let ls ← lines.run? (dropByteOrderMark text.toList)
  return (← ls.foldlM Draft.add .empty).root.toValue

end EnumCatalog.Toml
