/-!
# Blank text

Whitespace and comments carry no tokens. A doc comment is no blank text: it stands for an attribute
and has to be told apart here, where both begin with the same characters.

* `///` and `//!` open doc comments, `////` and plain `//` do not.
* `/**` and `/*!` open doc comments, `/***` and `/**/` do not.

Block comments nest.
-/

set_option autoImplicit false

namespace EnumCatalog.Text

/-- Whitespace, among it the two marks that set the direction of writing. -/
def isBlank (c : Char) : Bool :=
  let n := c.toNat
  n == 0x20 || (0x09 ≤ n && n ≤ 0x0D) || n == 0x85 || n == 0xA0 || n == 0x1680 ||
    (0x2000 ≤ n && n ≤ 0x200A) || n == 0x200E || n == 0x200F || n == 0x2028 || n == 0x2029 ||
    n == 0x202F || n == 0x205F || n == 0x3000

/-- The rest of a line and what follows it. The line feed that ends the line is not part of either,
nor is a carriage return before it. -/
def splitLine : List Char → List Char × List Char
  | [] => ([], [])
  | '\n' :: rest => ([], '\n' :: rest)
  | '\r' :: '\n' :: rest => ([], '\n' :: rest)
  | c :: rest => (c :: (splitLine rest).1, (splitLine rest).2)

/-- What follows the block comment that has been entered `depth` times. -/
def afterBlock (depth : Nat) : List Char → Option (List Char)
  | [] => none
  | '/' :: '*' :: rest => afterBlock (depth + 1) rest
  | '*' :: '/' :: rest => if depth ≤ 1 then some rest else afterBlock (depth - 1) rest
  | _ :: rest => afterBlock depth rest

/-- What follows a block comment that opens the text. -/
def afterBlockComment : List Char → Option (List Char)
  | '/' :: '*' :: rest => afterBlock 1 rest
  | _ => none

/-- Whether the text opens with a line comment that is no doc comment. -/
def opensLineComment : List Char → Bool
  | '/' :: '/' :: '/' :: '/' :: _ => true
  | '/' :: '/' :: '/' :: _ => false
  | '/' :: '/' :: '!' :: _ => false
  | '/' :: '/' :: _ => true
  | _ => false

/-- Whether the text opens with a block comment that is no doc comment. -/
def opensBlockComment : List Char → Bool
  | '/' :: '*' :: '*' :: '/' :: _ => true
  | '/' :: '*' :: '*' :: '*' :: _ => true
  | '/' :: '*' :: '*' :: _ => false
  | '/' :: '*' :: '!' :: _ => false
  | '/' :: '*' :: _ => true
  | _ => false

/-- What follows one blank piece, a whitespace character or a comment, at the start of the text. -/
def afterBlank? (text : List Char) : Option (List Char) :=
  if opensLineComment text then some (splitLine text).2
  else if opensBlockComment text then afterBlockComment text
  else
    match text with
    | c :: rest => if isBlank c then some rest else none
    | [] => none

/-- The text from its first piece on that is not blank. A blank piece is never empty, so the length
of the text bounds their number. -/
def dropBlank (text : List Char) : List Char := go text.length text
where
  go : Nat → List Char → List Char
    | 0, text => text
    | fuel + 1, text =>
      match afterBlank? text with
      | some rest => go fuel rest
      | none => text

end EnumCatalog.Text
