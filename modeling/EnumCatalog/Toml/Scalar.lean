import EnumCatalog.Toml.Scanner
import EnumCatalog.Toml.Value

/-!
# Blanks, keys and simple values

The lexical rules of TOML 1.0. Strings come in four forms, of which two may go over several lines;
in those a line end is always read as a line feed. Numbers are those that fit into 64 bits, and
dates those that exist.
-/

set_option autoImplicit false

namespace EnumCatalog.Toml

open Scanner

/-! ## 1. Blanks -/

/-- Blanks within a line. -/
def isBlank (c : Char) : Bool := c == ' ' || c == '\t'

/-- Characters that may stand in comments and, unless they have a meaning there, in strings. -/
def isPlain (c : Char) : Bool := c == '\t' || (0x20 ≤ c.toNat && c.toNat != 0x7F)

def blanks : Scanner Unit := do let _ ← charsWhile isBlank

/-- Reads the end of a line if it is there, and says whether it was. -/
def lineEnd? : Scanner Bool := do
  if ← skip? "\n" then return true else skip? "\r\n"

/-- Reads a comment if there is one. -/
def comment : Scanner Unit := do
  if ← skip? "#" then let _ ← charsWhile isPlain

/-- Reads what may follow an expression on its line, and the line's end. -/
def restOfLine : Scanner Unit := do
  blanks
  comment
  require ((← atEnd) || (← lineEnd?))

/-- Reads blanks, comments and ends of lines. -/
def blankLines : Scanner Unit := do
  let _ ← collect do
    if ← seesChar isBlank then blanks; return some ()
    else if ← sees "#" then
      comment
      require ((← sees "\n") || (← sees "\r\n") || (← atEnd))
      return some ()
    else if ← lineEnd? then return some ()
    else return none

/-! ## 2. Strings -/

/-- The value of a digit in base sixteen. -/
def hexValue (c : Char) : Nat :=
  if c.isDigit then c.toNat - '0'.toNat
  else if c.isLower then c.toNat - 'a'.toNat + 10
  else c.toNat - 'A'.toNat + 10

/-- Whether a character is a digit in base sixteen. -/
def isHexDigit (c : Char) : Bool :=
  c.isDigit || ('a' ≤ c && c ≤ 'f') || ('A' ≤ c && c ≤ 'F')

/-- Reads a character given by so many digits in base sixteen. -/
def codePoint (digits : Nat) : Scanner Char := do
  let n := (← chars digits isHexDigit).foldl (fun n c => 16 * n + hexValue c) 0
  require (decide n.isValidChar)
  return Char.ofNat n

/-- Reads an escape whose backslash has been read. -/
def escape : Scanner Char := do
  match ← char fun _ => true with
  | 'b' => return '\x08'
  | 't' => return '\t'
  | 'n' => return '\n'
  | 'f' => return '\x0c'
  | 'r' => return '\r'
  | '"' => return '"'
  | '\\' => return '\\'
  | 'u' => codePoint 4
  | 'U' => codePoint 8
  | _ => failure

/-- Reads the rest of a string of one line with escapes. -/
def basicRest : Scanner (List Char) := do
  let cs ← collect do
    if ← skip? "\\" then return some (← escape)
    else char? fun c => isPlain c && c != '"'
  skip "\""
  return cs

/-- Reads the rest of a string of one line without escapes. -/
def literalRest : Scanner (List Char) := do
  let cs ← charsWhile fun c => isPlain c && c != '\''
  skip "'"
  return cs

/-- Reads the quotes at the end of a string of several lines. Up to two of them belong to the
string; if there are fewer than three, it goes on. -/
def quotes (quote : Char) : Scanner (List Char × Bool) := do
  let n := ((← get).takeWhile (· == quote)).length
  let ends := 3 ≤ n
  modify (·.drop (min n 5))
  return (List.replicate (if ends then min n 5 - 3 else n) quote, ends)

/-- Reads the rest of a string of several lines: pieces up to the quotes that end it. -/
def linesRest (quote : Char) (piece : Scanner (List Char)) : Scanner (List Char) := do
  let _ ← lineEnd?
  let (pieces, ends) ← loop ((← get).length + 1)
  require ends
  return pieces
where
  loop : Nat → Scanner (List Char × Bool)
    | 0 => failure
    | n + 1 => do
      if ← seesChar (· == quote) then
        let (cs, ends) ← quotes quote
        if ends then return (cs, true)
        let (rest, ends) ← loop n
        return (cs ++ rest, ends)
      else
        let cs ← piece
        let (rest, ends) ← loop n
        return (cs ++ rest, ends)

/-- Reads a character or the end of a line. -/
def plainPiece : Scanner (List Char) := do
  if ← lineEnd? then return ['\n'] else return [← char isPlain]

/-- Reads a piece of a string of several lines with escapes. A backslash at the end of a line
removes all blanks and ends of lines that follow. -/
def escapedPiece : Scanner (List Char) := do
  if ← skip? "\\" then
    let cs ← get
    blanks
    if ← lineEnd? then
      let _ ← collect do
        if ← seesChar isBlank then blanks; return some ()
        else if ← lineEnd? then return some ()
        else return none
      return []
    else
      set cs
      return [← escape]
  else plainPiece

/-- Reads a string of one line. -/
def lineString : Scanner String := do
  if ← skip? "\"" then return String.ofList (← basicRest)
  skip "'"
  return String.ofList (← literalRest)

def string : Scanner String := do
  if ← skip? "\"\"\"" then return String.ofList (← linesRest '"' escapedPiece)
  if ← skip? "'''" then return String.ofList (← linesRest '\'' plainPiece)
  lineString

/-! ## 3. Keys -/

/-- Characters of keys without quotes. -/
def isKeyChar (c : Char) : Bool := c.isAlphanum || c == '_' || c == '-'

def simpleKey : Scanner String := do
  if ← seesChar fun c => c == '"' || c == '\'' then lineString
  else
    let cs ← charsWhile isKeyChar
    require !cs.isEmpty
    return String.ofList cs

/-- The number of parts that a key has less than. -/
def maxKeyParts : Nat := 80

/-- Reads a key with its parts, and the blanks around them. -/
def key : Scanner (List String) := do
  let part : Scanner String := do
    blanks
    let k ← simpleKey
    blanks
    return k
  let first ← part
  let others ← collect do
    if ← skip? "." then return some (← part) else return none
  require (others.length + 1 < maxKeyParts)
  return first :: others

/-! ## 4. Numbers -/

/-- Reads digits, between which single underscores may stand. -/
def digits (test : Char → Bool) : Scanner (List Char) := do
  let first ← char test
  let others ← collect do
    if ← skip? "_" then return some (← char test) else char? test
  return first :: others

/-- The number that digits stand for. -/
def numberOf (base : Nat) (ds : List Char) : Nat := ds.foldl (fun n c => base * n + hexValue c) 0

/-- The numbers that are too large for a signed number of 64 bits. -/
def integerBound : Nat := Nat.pow 2 63

/-- Reads a number in another base, whose opening has been read. -/
def basedInteger (base : Nat) (test : Char → Bool) : Scanner Unit := do
  require (numberOf base (← digits test) < integerBound)

/-- The least number that is rounded up to infinity. -/
def floatBound : Nat := Nat.pow 2 1024 - Nat.pow 2 970

/-- Whether digits, shifted by a number of places, make a number that is rounded up to infinity. All
but a few are told by the number of places alone. -/
def overflows (ds : List Char) (shift : Int) : Bool :=
  let ds := ds.dropWhile (· == '0')
  let places := ds.length + shift
  if ds.isEmpty || places ≤ 308 then false
  else if 309 < places then true
  else floatBound * Nat.pow 10 (-shift).toNat ≤ numberOf 10 ds * Nat.pow 10 shift.toNat

def sign : Scanner Bool := do
  if ← skip? "-" then return true
  let _ ← skip? "+"
  return false

/-- Reads the digits of a whole number: no zero stands in front of others. -/
def wholeDigits : Scanner (List Char) := do
  if ← skip? "0" then return ['0'] else digits Char.isDigit

/-- Reads an exponent if there is one. -/
def exponent? : Scanner (Option Int) := do
  if (← char? fun c => c == 'e' || c == 'E').isSome then
    let negative ← sign
    let n : Int := numberOf 10 (← digits Char.isDigit)
    return some (if negative then -n else n)
  else return none

/-- Reads a number in base ten, with or without a fraction. -/
def decimal : Scanner Unit := do
  let negative ← sign
  if ← skip? "inf" then return
  if ← skip? "nan" then return
  let whole ← wholeDigits
  let fraction ← if ← skip? "." then digits Char.isDigit else pure []
  match fraction, ← exponent? with
  | [], none =>
    let n := numberOf 10 whole
    require (if negative then n ≤ integerBound else n < integerBound)
  | _, e =>
    require (negative || !overflows (whole ++ fraction) (e.getD 0 - fraction.length))

def number : Scanner Unit := do
  if ← skip? "0x" then basedInteger 16 isHexDigit
  else if ← skip? "0o" then basedInteger 8 fun c => '0' ≤ c && c ≤ '7'
  else if ← skip? "0b" then basedInteger 2 fun c => c == '0' || c == '1'
  else decimal

/-! ## 5. Dates and times -/

/-- Reads so many digits as a number within bounds. -/
def field (width least most : Nat) : Scanner Nat := do
  let n := numberOf 10 (← chars width Char.isDigit)
  require (least ≤ n && n ≤ most)
  return n

def daysOf (year month : Nat) : Nat :=
  if month == 2 then
    if year % 4 == 0 && (year % 100 != 0 || year % 400 == 0) then 29 else 28
  else if [4, 6, 9, 11].contains month then 30
  else 31

def date : Scanner Unit := do
  let year ← field 4 0 9999
  skip "-"
  let month ← field 2 1 12
  skip "-"
  let _ ← field 2 1 (daysOf year month)

/-- Reads a time of day. A minute may have a leap second. -/
def time : Scanner Unit := do
  let _ ← field 2 0 23
  skip ":"
  let _ ← field 2 0 59
  skip ":"
  let _ ← field 2 0 60
  if ← skip? "." then
    require (!(← charsWhile Char.isDigit).isEmpty)

/-- Reads the difference from universal time if there is one. -/
def offset : Scanner Unit := do
  if (← char? fun c => c == 'Z' || c == 'z').isSome then return
  if (← char? fun c => c == '+' || c == '-').isSome then
    let _ ← field 2 0 23
    skip ":"
    let _ ← field 2 0 59

/-- Whether so many digits and a mark are ahead. -/
def seesField (width : Nat) (mark : Char) : Scanner Bool := do
  let cs ← get
  return (cs.take width).length == width && (cs.take width).all Char.isDigit &&
    cs[width]? == some mark

/-- Reads a date, a time, or both. A space may divide them; a space may also follow a date alone. -/
def dateTime : Scanner Unit := do
  if ← seesField 2 ':' then time
  else
    date
    let ahead ← get
    if (← char? fun c => c == 'T' || c == 't' || c == ' ').isSome then
      if ← seesField 2 ':' then
        time
        offset
      else set ahead

/-- Whether a date or a time is ahead. -/
def seesDateTime : Scanner Bool := do return (← seesField 4 '-') || (← seesField 2 ':')

end EnumCatalog.Toml
