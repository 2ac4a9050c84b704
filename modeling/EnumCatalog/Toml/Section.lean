import EnumCatalog.Toml.Value

/-!
# Building tables

A table of a document comes about in pieces, and the rules say which pieces may meet. A header may
name a table whose subtables have been named before, but no table twice. A dotted key makes the
tables on its way, and it may only go through tables that were made so or have no header of their
own. Under the name of an array of tables, the last of them is meant.

So while a document is being read, a table remembers how it came about (`Section`). What is left in
the end is its value.
-/

set_option autoImplicit false

namespace EnumCatalog.Toml

/-- How a table has come about. -/
structure Origin where
  /-- Only on the way to another; no header names it. -/
  implicit : Bool
  /-- On the way of a dotted key. -/
  dotted : Bool
  deriving DecidableEq, Repr, Inhabited

namespace Origin

/-- By a header of its own. -/
def header : Origin := ⟨false, false⟩

/-- On the way to another table. -/
def passed (dotted : Bool) : Origin := ⟨true, dotted⟩

end Origin

/-- What stands under a key while the document is being read. -/
inductive Node where
  | value (v : Value)
  | table (o : Origin) (entries : List (String × Node))
  /-- Tables with the same header in double brackets, last first. -/
  | tables (last : List (String × Node)) (earlier : List (List (String × Node)))
  deriving Inhabited

/-- A table that is being built. -/
structure Section where
  origin : Origin
  entries : List (String × Node)
  deriving Inhabited

namespace Section

/-- The table that all of a document is. -/
def empty : Section := ⟨.header, []⟩

/-- Sets the node under a key. -/
def set (s : Section) (key : String) (n : Node) : Section :=
  { s with entries := go s.entries }
where
  go : List (String × Node) → List (String × Node)
    | [] => [(key, n)]
    | e :: rest => if e.1 == key then (key, n) :: rest else e :: go rest

/-- Changes the table that a path leads to. Tables that are missing on the way are made; a dotted
path may not go through a table that has a header. -/
def updateAt (dotted : Bool) : List String → (Section → Option Section) → Section → Option Section
  | [], f, s => f s
  | key :: path, f, s =>
    match s.entries.lookup key with
    | none => do
      let t ← updateAt dotted path f ⟨.passed dotted, []⟩
      return s.set key (.table t.origin t.entries)
    | some (.table o entries) =>
      if dotted && !o.implicit then none
      else do
        let t ← updateAt dotted path f ⟨o, entries⟩
        return s.set key (.table t.origin t.entries)
    | some (.tables last earlier) => do
      let t ← updateAt dotted path f ⟨.header, last⟩
      return s.set key (.tables t.entries earlier)
    | some (.value _) => none

/-- Puts a value under a new key. A dotted key may not add to a table that has no dots. -/
def putNew (isDotted : Bool) (key : String) (v : Value) (s : Section) : Option Section :=
  if s.origin.dotted != isDotted || (s.entries.lookup key).isSome then none
  else some (s.set key (.value v))

/-- Puts a value under a key with its parts. -/
def put (path : List String) (key : String) (v : Value) (s : Section) : Option Section :=
  updateAt true path (putNew (!path.isEmpty) key v) s

/-- Opens the table of a header. -/
def openTable (path : List String) (key : String) (s : Section) : Option Section :=
  updateAt false path (fun t =>
    match t.entries.lookup key with
    | none => some (t.set key (.table .header []))
    | some (.table o entries) =>
      if o.implicit && !o.dotted then some (t.set key (.table .header entries)) else none
    | some _ => none) s

/-- Opens the next table of a header in double brackets. -/
def openNext (path : List String) (key : String) (s : Section) : Option Section :=
  updateAt false path (fun t =>
    match t.entries.lookup key with
    | none => some (t.set key (.tables [] []))
    | some (.tables last earlier) => some (t.set key (.tables [] (last :: earlier)))
    | some _ => none) s

end Section

namespace Node

mutual

def toValue : Node → Value
  | .value v => v
  | .table _ entries => .table (entriesOf entries)
  | .tables last earlier => .array ((Value.table (entriesOf last) :: tablesOf earlier).reverse)

/-- The values under the keys of a table. -/
def entriesOf : List (String × Node) → List (String × Value)
  | [] => []
  | (key, n) :: rest => (key, n.toValue) :: entriesOf rest

def tablesOf : List (List (String × Node)) → List Value
  | [] => []
  | t :: rest => .table (entriesOf t) :: tablesOf rest

end

end Node

def Section.toValue (s : Section) : Value := .table (Node.entriesOf s.entries)

end EnumCatalog.Toml
