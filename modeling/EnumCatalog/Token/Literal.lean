import EnumCatalog.Text.IdentChar
import EnumCatalog.Token

/-!
# What literals mean

A literal token is kept as it was written. This file sorts such texts into kinds, finds the suffix
that may follow (`"x"suffix`, `0xff_u8`), and reads the two values that matter: the text of a
string literal and the value of an integer.

The functions expect texts that the lexer accepted, so they do not check again what a lexer checks
(escapes are well formed, quotes are closed).
-/

set_option autoImplicit false

namespace EnumCatalog.Literal

inductive Kind where
  | string
  | byteString
  | cString
  | byte
  | char
  | int
  | float
  /-- None of the other kinds: a placeholder that stands for an error. -/
  | other
  deriving DecidableEq, Repr

/-! ## 1. Numbers -/

/-- A digit of a base up to sixteen. -/
def digit? (base : Nat) (c : Char) : Option Nat :=
  let d? :=
    if '0' ≤ c ∧ c ≤ '9' then some (c.toNat - '0'.toNat)
    else if 'a' ≤ c ∧ c ≤ 'f' then some (c.toNat - 'a'.toNat + 10)
    else if 'A' ≤ c ∧ c ≤ 'F' then some (c.toNat - 'A'.toNat + 10)
    else none
  d?.filter (· < base)

/-- Whether what follows the letter `e` makes the number a decimal fraction and not an integer with
a suffix: a sign, or digits with nothing after them but a suffix. -/
def exponentFollows : Bool → List Char → Bool
  | seen, [] => seen
  | seen, c :: rest =>
    if c == '_' then exponentFollows seen rest
    else if c == '+' || c == '-' then true
    else if c.isDigit then exponentFollows true rest
    else seen && Text.isIdentText (c :: rest)

/-- The value and the suffix of an integer, digit by digit. `value` is what has been read; it is
absent before the first digit. -/
def intFrom (base : Nat) (value : Option Nat) : List Char → Option (Nat × List Char)
  | [] => value.map (·, [])
  | c :: rest =>
    match digit? base c with
    | some d => intFrom base (some (value.getD 0 * base + d)) rest
    | none =>
      if c == '_' then intFrom base value rest
      else if c.isDigit then none
      else if base == 10 && c == '.' then none
      else if base == 10 && (c == 'e' || c == 'E') && exponentFollows false rest then none
      else if Text.isIdentText (c :: rest) then value.map (·, c :: rest)
      else none

/-- The value and the suffix of an integer literal. -/
def int? (text : List Char) : Option (Nat × List Char) :=
  match text with
  | '0' :: 'x' :: rest => intFrom 16 none rest
  | '0' :: 'o' :: rest => intFrom 8 none rest
  | '0' :: 'b' :: rest => intFrom 2 none rest
  | c :: _ => if c.isDigit then intFrom 10 none text else none
  | [] => none

/-! ## 2. Kinds -/

/-- The kind of a literal, told by how it starts; numbers are integers if they can be. -/
def kind (text : String) : Kind :=
  match text.toList with
  | '"' :: _ => .string
  | 'r' :: _ => .string
  | 'b' :: '\'' :: _ => .byte
  | 'b' :: _ => .byteString
  | 'c' :: _ => .cString
  | '\'' :: _ => .char
  | c :: rest =>
    if c.isDigit then if (int? (c :: rest)).isSome then .int else .float
    else .other
  | [] => .other

/-! ## 3. The text of a string literal -/

/-- The number written in hexadecimal digits; underscores do not count. -/
def hexValue (digits : List Char) : Nat :=
  digits.foldl (fun n c => (digit? 16 c).elim n (n * 16 + ·)) 0

/-- The space that a backslash at the end of a line joins the next line over. -/
def isJoined (c : Char) : Bool := c == ' ' || c == '\t' || c == '\n' || c == '\r'

def escapes : List (Char × Char) :=
  [('n', '\n'), ('r', '\r'), ('t', '\t'), ('\\', '\\'), ('0', '\x00'), ('\'', '\''), ('"', '"')]

/-- The text of a quoted string up to its closing quote. Each step drops what it has read, so the
number of characters bounds the steps. -/
def cookedFrom : Nat → List Char → List Char
  | 0, _ => []
  | fuel + 1, text =>
    match text with
    | [] => []
    | '"' :: _ => []
    | '\\' :: 'x' :: h :: l :: rest => Char.ofNat (hexValue [h, l]) :: cookedFrom fuel rest
    | '\\' :: 'u' :: rest =>
      let digits := (rest.drop 1).takeWhile (· != '\x7d')
      Char.ofNat (hexValue digits) :: cookedFrom fuel (rest.drop (digits.length + 2))
    | '\\' :: c :: rest =>
      match escapes.lookup c with
      | some value => value :: cookedFrom fuel rest
      | none => cookedFrom fuel (rest.dropWhile isJoined)
    | '\r' :: rest => '\n' :: cookedFrom fuel (rest.drop 1)
    | c :: rest => c :: cookedFrom fuel rest

/-- The text of a raw string: what stands between its first and its last quote. -/
def rawFrom (text : List Char) : List Char :=
  let inside := (text.dropWhile (· != '"')).drop 1
  (inside.reverse.dropWhile (· != '"')).drop 1 |>.reverse

/-- The text that a string literal stands for; absent for other literals. -/
def stringValue? (text : String) : Option String :=
  match text.toList with
  | '"' :: rest => some (String.ofList (cookedFrom rest.length rest))
  | 'r' :: rest => some (String.ofList (rawFrom rest))
  | _ => none

end EnumCatalog.Literal
