/-!
# Laying out code

Generated code is laid out the way a formatter would: what fits on a line stays on it, and what does
not is broken at the outermost place first. A document is a list of pieces; a `group` holds the
places at which it may be broken. A group that fits is written without a break in it; in one that
does not fit *every* break becomes the end of a line.

A group fits if there is room for it *and* for all that follows it up to the next break outside.
The room is measured in bytes.
-/

set_option autoImplicit false

namespace EnumCatalog.Layout

/-- The columns of a level of indentation. -/
def indentation : Nat := 4

/-- The columns of a line. -/
def margin : Nat := 89

/-- The columns that a line has at least, however deep it is indented. -/
def minimum : Nat := 60

/-- What a place where a line may be broken looks like. -/
structure Break where
  /-- A space stands there if the line is not broken. -/
  spaced : Bool
  /-- A comma ends the line that is broken there. -/
  comma : Bool
  /-- The next line is indented one level less. -/
  closing : Bool
  deriving DecidableEq, Repr

namespace Break

/-- The break after what opens a list. -/
def opening : Break := ⟨false, false, false⟩

/-- The break between two items of a list. -/
def between : Break := ⟨true, false, false⟩

/-- The break before what closes a list. -/
def last : Break := ⟨false, true, true⟩

/-- The columns it takes if the line is not broken. -/
def width (b : Break) : Nat := if b.spaced then 1 else 0

end Break

inductive Doc where
  | text (s : String)
  | maybe (b : Break)
  /-- Nothing. What stands before it has to find room only up to here. -/
  | seam
  /-- Pieces that are broken together; `deeper` if they are indented one level more then. -/
  | group (deeper : Bool) (inner : List Doc)
  deriving Inhabited

namespace Doc

mutual

/-- The columns of a piece without breaks. -/
def width : Doc → Nat
  | .text s => s.utf8ByteSize
  | .maybe b => b.width
  | .seam => 0
  | .group _ inner => widthAll inner

/-- The columns of pieces without breaks. -/
def widthAll : List Doc → Nat
  | [] => 0
  | d :: rest => d.width + widthAll rest

end

/-- The columns up to the first break or seam that is not within a group, with what comes after the
last piece counted as given. -/
def lead (after : Nat) : List Doc → Nat
  | [] => after
  | .maybe _ :: _ => 0
  | .seam :: _ => 0
  | d :: rest => d.width + lead after rest

/-- Items with a comma and a break between each two, and a break after the last. -/
def items : List (List Doc) → List Doc
  | [] => []
  | [d] => d ++ [.maybe .last]
  | d :: rest => d ++ [.text ",", .maybe .between] ++ items rest

/-- A list in brackets that is broken as a whole. -/
def list (opening closing : String) (deeper : Bool) (ds : List (List Doc)) : List Doc :=
  [.text opening, .group deeper (.maybe .opening :: items ds), .text closing]

end Doc

/-! ## Writing -/

/-- What has been written, and how far the line has got. -/
structure Pen where
  written : String
  /-- The columns that the line may take. -/
  limit : Nat
  /-- The columns that the line takes so far. -/
  used : Nat

namespace Pen

/-- A pen at the start of a line that is indented by so many columns. -/
def start (indent : Nat) : Pen :=
  ⟨String.ofList (List.replicate indent ' '), max margin (indent + minimum), indent⟩

def write (p : Pen) (s : String) : Pen :=
  { p with written := p.written ++ s, used := p.used + s.utf8ByteSize }

/-- Ends the line and starts the next. -/
def newLine (p : Pen) (indent : Nat) : Pen :=
  { start indent with written := p.written ++ "\n" ++ (start indent).written }

/-- Whether there is room for so many columns more. -/
def hasRoom (p : Pen) (columns : Nat) : Bool := p.used + columns ≤ p.limit

/-- Ends the line at a break. -/
def breakAt (p : Pen) (indent : Nat) (b : Break) : Pen :=
  (if b.comma then p.write "," else p).newLine (if b.closing then indent - indentation else indent)

end Pen

namespace Doc

mutual

/-- Writes a piece that is followed by `after` columns up to the next break. Unless it stands in a
group that is not broken, its own breaks are taken, and lines are indented by `indent`. -/
def put (isFlat : Bool) (indent after : Nat) (p : Pen) : Doc → Pen
  | .text s => p.write s
  | .maybe b => if isFlat then p.write (if b.spaced then " " else "") else p.breakAt indent b
  | .seam => p
  | .group deeper inner =>
    if isFlat || p.hasRoom (widthAll inner + after) then putAll true indent after p inner
    else putAll false (if deeper then indent + indentation else indent) after p inner

/-- Writes pieces one after the other. -/
def putAll (isFlat : Bool) (indent after : Nat) (p : Pen) : List Doc → Pen
  | [] => p
  | d :: rest => putAll isFlat indent after (put isFlat indent (lead after rest) p d) rest

end

/-- The text of a document on lines of its own. The first is indented by `first` columns, those at
its breaks by `indent`. -/
def render (first indent : Nat) (ds : List Doc) : String :=
  (putAll false indent 0 (.start first) ds).written ++ "\n"

end Doc

end EnumCatalog.Layout
