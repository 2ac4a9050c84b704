import EnumCatalog.Text.Blank
import EnumCatalog.Text.Escape
import EnumCatalog.Text.IdentChar
import EnumCatalog.Token

/-!
# From text to tokens

The reading of a source text runs in two passes. The first cuts the text into lexemes: tokens that
are no group, and brackets one by one. The second pairs the brackets. Splitting the work keeps both
simple: the first pass never looks at a bracket twice and the second never looks at a character.

A doc comment stands for an attribute, so it yields the lexemes of that attribute.

The functions that scan one token return what is left of the text, or nothing if no such token
stands at the start. At most one kind of token can start with given characters, apart from the
order laid down in `leaf?`: literals before punctuation before identifiers. (`b'x'` would else be an
identifier, and `'a'` a lifetime.)
-/

set_option autoImplicit false

namespace EnumCatalog.Lexer

open Text

/-! ## 1. Identifiers -/

/-- A name without raw mark, and what follows. -/
def name? : List Char → Option (List Char × List Char)
  | [] => none
  | c :: rest =>
    if opensIdent c then some (c :: rest.takeWhile continuesIdent, rest.dropWhile continuesIdent)
    else none

theorem isIdentText_of_name? {text name rest : List Char} (h : name? text = some (name, rest)) :
    isIdentText (String.ofList name).toList = true := by
  rw [String.toList_ofList]
  cases text with
  | nil => simp [name?] at h
  | cons c text =>
    rw [name?] at h
    split at h
    · next hc =>
      simp only [Option.some.injEq, Prod.mk.injEq] at h
      obtain ⟨rfl, -⟩ := h
      rw [isIdentText, hc, Bool.true_and]
      exact List.all_takeWhile
    · simp at h

/-- An identifier, raw or not, and what follows. -/
def anyIdent? : List Char → Option (Ident × List Char)
  | 'r' :: '#' :: text =>
    match h : name? text with
    | some (name, rest) =>
      if hr : neverRaw.contains (String.ofList name) then none
      else some (⟨true, String.ofList name, isIdentText_of_name? h, by simpa using hr⟩, rest)
    | none => none
  | text =>
    match h : name? text with
    | some (name, rest) =>
      some (⟨false, String.ofList name, isIdentText_of_name? h, rfl⟩, rest)
    | none => none

/-- Beginnings of literals, which no identifier may have even if the literal is broken. -/
def literalOpenings : List String :=
  ["r\"", "r#\"", "r##", "b\"", "b'", "br\"", "br#", "c\"", "cr\"", "cr#"]

/-- An identifier that could not be meant as a literal. -/
def ident? (text : List Char) : Option (Ident × List Char) :=
  if literalOpenings.any fun s => s.toList.isPrefixOf text then none else anyIdent? text

/-- What follows an optional suffix of a literal. -/
def afterSuffix (text : List Char) : List Char :=
  match name? text with
  | some (_, rest) => rest
  | none => text

/-! ## 2. Quoted literals

Texts between double quotes are read one character at a time by a small machine; the three kinds
(texts, bytes, and texts that may not hold NUL) differ in a handful of tests. -/

/-- What a kind of quoted literal admits. -/
structure QuoteRule where
  /-- The two digits of an escape by number. -/
  hexPair : Char → Char → Bool
  /-- The code points that may be written between braces. -/
  codePoint : Nat → Bool
  /-- The characters of one-character escapes. -/
  simple : Char → Bool
  /-- The characters that stand for themselves. -/
  plain : Char → Bool

def isHex (c : Char) : Bool :=
  c.isDigit || ('a' ≤ c && c ≤ 'f') || ('A' ≤ c && c ≤ 'F')

/-- The value of a hexadecimal digit. -/
def hexDigit (c : Char) : Nat :=
  if c.isDigit then c.toNat - '0'.toNat
  else if 'a' ≤ c then c.toNat - 'a'.toNat + 10
  else c.toNat - 'A'.toNat + 10

/-- Code points that are characters. -/
def isScalar (n : Nat) : Bool := n < 0xD800 || (0xDFFF < n && n < 0x110000)

/-- Texts: escapes by number stay within ASCII. -/
def textRule : QuoteRule where
  hexPair h l := '0' ≤ h && h ≤ '7' && isHex l
  codePoint := isScalar
  simple c := ['n', 'r', 't', '\\', '\'', '"', '0'].contains c
  plain _ := true

/-- Bytes: ASCII only, and no escapes by code point. -/
def byteRule : QuoteRule where
  hexPair h l := isHex h && isHex l
  codePoint _ := false
  simple c := ['n', 'r', 't', '\\', '\'', '"', '0'].contains c
  plain c := c.toNat < 0x80

/-- Texts that end with NUL and therefore hold none. -/
def cTextRule : QuoteRule where
  hexPair h l := isHex h && isHex l && !(h == '0' && l == '0')
  codePoint n := isScalar n && n != 0
  simple c := ['n', 'r', 't', '\\', '\'', '"'].contains c
  plain c := c != '\x00'

/-- Where in a quoted literal a character stands. -/
inductive QuoteState where
  | plain
  /-- After a carriage return, which a line feed has to follow. -/
  | cr
  | backslash
  | hexFirst
  | hexSecond (h : Char)
  | brace
  | digits (count value : Nat)
  /-- In the space that a backslash at the end of a line skips. -/
  | joined
  | joinedCr
  deriving DecidableEq, Repr

/-- What a character does in a quoted literal. -/
inductive QuoteStep where
  | next (s : QuoteState)
  | close
  | fail
  deriving DecidableEq, Repr

/-- A character that stands for itself, or opens an escape, or ends the literal. -/
def plainStep (rule : QuoteRule) (c : Char) : QuoteStep :=
  if c == '"' then .close
  else if c == '\r' then .next .cr
  else if c == '\\' then .next .backslash
  else if rule.plain c then .next .plain
  else .fail

def quoteStep (rule : QuoteRule) : QuoteState → Char → QuoteStep
  | .plain, c => plainStep rule c
  | .cr, c => if c == '\n' then .next .plain else .fail
  | .backslash, c =>
    if c == 'x' then .next .hexFirst
    else if c == 'u' then .next .brace
    else if c == '\n' then .next .joined
    else if c == '\r' then .next .joinedCr
    else if rule.simple c then .next .plain
    else .fail
  | .hexFirst, c => .next (.hexSecond c)
  | .hexSecond h, c => if rule.hexPair h c then .next .plain else .fail
  | .brace, c => if c == '\x7b' then .next (.digits 0 0) else .fail
  | .digits count value, c =>
    if isHex c then
      if count == 6 then .fail else .next (.digits (count + 1) (value * 16 + hexDigit c))
    else if count == 0 then .fail
    else if c == '_' then .next (.digits count value)
    else if c == '\x7d' then if rule.codePoint value then .next .plain else .fail
    else .fail
  | .joined, c =>
    if c == ' ' || c == '\t' || c == '\n' then .next .joined
    else if c == '\r' then .next .joinedCr
    else plainStep rule c
  | .joinedCr, c => if c == '\n' then .next .joined else .fail

def afterQuoted (rule : QuoteRule) : QuoteState → List Char → Option (List Char)
  | _, [] => none
  | s, c :: rest =>
    match quoteStep rule s c with
    | .next s' => afterQuoted rule s' rest
    | .close => some rest
    | .fail => none

/-- What follows one escape, whose backslash has been read. No line is joined here. -/
def afterEscape (rule : QuoteRule) : QuoteState → List Char → Option (List Char)
  | .plain, text => some text
  | .joined, _ => none
  | .joinedCr, _ => none
  | _, [] => none
  | s, c :: rest =>
    match quoteStep rule s c with
    | .next s' => afterEscape rule s' rest
    | _ => none

/-- What follows the end of a raw text: a quote and as many number signs as opened it. A bare
carriage return is not allowed. -/
def afterRaw (plain : Char → Bool) (close : List Char) : List Char → Option (List Char)
  | [] => none
  | '"' :: rest =>
    if close.isPrefixOf rest then some (rest.drop close.length) else afterRaw plain close rest
  | '\r' :: '\n' :: rest => afterRaw plain close rest
  | '\r' :: _ => none
  | c :: rest => if plain c then afterRaw plain close rest else none

/-- What follows a raw text whose letters have been read. -/
def afterRawOpening (plain : Char → Bool) (text : List Char) : Option (List Char) :=
  let signs := text.takeWhile (· == '#')
  match text.drop signs.length with
  | '"' :: rest => if signs.length ≤ 255 then afterRaw plain signs rest else none
  | _ => none

/-- What follows the quoted character of a character or byte literal whose first quote has been
read. -/
def afterCharacter (rule : QuoteRule) (text : List Char) : Option (List Char) :=
  let rest? :=
    match text with
    | '\\' :: rest => afterEscape rule .backslash rest
    | c :: rest => if rule.plain c then some rest else none
    | [] => none
  match rest? with
  | some ('\'' :: rest) => some rest
  | _ => none

/-- What follows a quoted literal at the start of the text, without its suffix. -/
def afterQuotedLiteral : List Char → Option (List Char)
  | '"' :: rest => afterQuoted textRule .plain rest
  | 'b' :: '"' :: rest => afterQuoted byteRule .plain rest
  | 'b' :: 'r' :: rest => afterRawOpening byteRule.plain rest
  | 'b' :: '\'' :: rest => afterCharacter byteRule rest
  | 'c' :: '"' :: rest => afterQuoted cTextRule .plain rest
  | 'c' :: 'r' :: rest => afterRawOpening cTextRule.plain rest
  | 'r' :: rest => afterRawOpening textRule.plain rest
  | '\'' :: rest => afterCharacter textRule rest
  | _ => none

/-! ## 3. Numbers -/

/-- How the digits before an exponent end. -/
inductive Mantissa where
  | fail
  /-- No exponent follows. -/
  | plain (hasDot : Bool) (rest : List Char)
  /-- An exponent may follow; `rest` opens with its letter. -/
  | exponent (hasDot : Bool) (rest : List Char)

/-- Reads digits with at most one point. A point that another point or a name follows belongs to a
range or to a field, so there is no decimal fraction then. -/
def mantissa (hasDot : Bool) : List Char → Mantissa
  | [] => .plain hasDot []
  | c :: rest =>
    if c.isDigit || c == '_' then mantissa hasDot rest
    else if c == '.' then
      if hasDot then .plain hasDot (c :: rest)
      else if rest.head?.any fun d => d == '.' || opensIdent d then .fail
      else mantissa true rest
    else if c == 'e' || c == 'E' then .exponent hasDot (c :: rest)
    else .plain hasDot (c :: rest)

/-- What follows the digits of an exponent; nothing if it has none or two signs. -/
def afterExponent (hasSign hasValue : Bool) : List Char → Option (List Char)
  | [] => if hasValue then some [] else none
  | c :: rest =>
    if c == '+' || c == '-' then
      if hasValue then some (c :: rest)
      else if hasSign then none
      else afterExponent true hasValue rest
    else if c.isDigit then afterExponent hasSign true rest
    else if c == '_' then afterExponent hasSign hasValue rest
    else if hasValue then some (c :: rest) else none

/-- What follows the digits of a decimal fraction. Without a valid exponent the fraction ends before
the letter, and the letter opens a suffix. -/
def afterFraction (text : List Char) : Option (List Char) :=
  match mantissa false text with
  | .fail => none
  | .plain hasDot rest => if hasDot then some rest else none
  | .exponent hasDot rest =>
    match afterExponent false false (rest.drop 1) with
    | some rest' => some rest'
    | none => if hasDot then some rest else none

/-- What follows the digits of an integer. -/
def afterDigits (base : Nat) (isEmpty : Bool) : List Char → Option (List Char)
  | [] => if isEmpty then none else some []
  | c :: rest =>
    if c.isDigit then
      if c.toNat - '0'.toNat < base then afterDigits base false rest else none
    else if isHex c && base == 16 then afterDigits base false rest
    else if c == '_' then
      if isEmpty && base == 10 then none else afterDigits base isEmpty rest
    else if isEmpty then none else some (c :: rest)

/-- What follows the digits of an integer with its base. -/
def afterInteger : List Char → Option (List Char)
  | '0' :: 'x' :: rest => afterDigits 16 true rest
  | '0' :: 'o' :: rest => afterDigits 8 true rest
  | '0' :: 'b' :: rest => afterDigits 2 true rest
  | text => afterDigits 10 true text

/-- A number ends where no identifier could go on. -/
def atWordEnd (text : List Char) : Option (List Char) :=
  if text.head?.any continuesIdent then none else some text

/-- What follows a number and its suffix. -/
def afterNumber (text : List Char) : Option (List Char) :=
  if text.head?.any Char.isDigit then
    match (afterFraction text).bind fun rest => atWordEnd (afterSuffix rest) with
    | some rest => some rest
    | none => (afterInteger text).bind fun rest => atWordEnd (afterSuffix rest)
  else none

def afterLiteral (text : List Char) : Option (List Char) :=
  match afterQuotedLiteral text with
  | some rest => some (afterSuffix rest)
  | none => afterNumber text

/-! ## 4. Punctuation -/

def isPunct (c : Char) : Bool :=
  ['~', '!', '@', '#', '$', '%', '^', '&', '*', '-', '=', '+', '|', ';', ':', ',', '<', '.', '>',
    '/', '?', '\''].contains c

/-- Whether the text opens with punctuation. A slash that opens a comment is none. -/
def opensPunct : List Char → Bool
  | '/' :: '/' :: _ => false
  | '/' :: '*' :: _ => false
  | c :: _ => isPunct c
  | [] => false

/-- A lifetime whose quote has been read. Another quote after the name would make it a character. -/
def lifetime? (text : List Char) : Option (Ident × List Char) :=
  match anyIdent? text with
  | some (i, rest) =>
    match rest with
    | '\'' :: _ => none
    | '#' :: _ => if i.raw then some (i, rest) else none
    | _ => some (i, rest)
  | none => none

/-- A punctuation character or a lifetime. -/
def punct? (text : List Char) : Option (Token × List Char) :=
  if opensPunct text then
    match text with
    | '\'' :: rest => (lifetime? rest).map fun (i, rest) => (.lifetime i, rest)
    | c :: rest => some (.punct c (opensPunct rest), rest)
    | [] => none
  else none

/-! ## 5. Lexemes -/

/-- A token that is no group, or one bracket. -/
inductive Lexeme where
  | leaf (t : Token)
  | opening (d : Delimiter)
  | closing (d : Delimiter)

/-- The text that stands for a literal which could not be made. -/
def errorPlaceholder : String := "(/*ERROR*/)"

/-- A token that is no group. -/
def leaf? (text : List Char) : Option (Token × List Char) :=
  match afterLiteral text with
  | some rest => some (.literal (String.ofList (text.take (text.length - rest.length))), rest)
  | none =>
    match punct? text with
    | some found => some found
    | none => (ident? text).map fun (i, rest) => (.ident i, rest)

/-- The text of a doc comment, whether it belongs to what encloses it, and what follows. -/
def docComment? : List Char → Option (List Char × Bool × List Char)
  | '/' :: '/' :: '!' :: rest => let (line, rest) := splitLine rest; some (line, true, rest)
  | '/' :: '/' :: '/' :: '/' :: _ => none
  | '/' :: '/' :: '/' :: rest => let (line, rest) := splitLine rest; some (line, false, rest)
  | '/' :: '*' :: '!' :: rest => block '!' rest true
  | '/' :: '*' :: '*' :: '*' :: _ => none
  | '/' :: '*' :: '*' :: rest => block '*' rest false
  | _ => none
where
  /-- The text of a block: all of it but the two characters that close it. -/
  block (mark : Char) (text : List Char) (inner : Bool) : Option (List Char × Bool × List Char) :=
    (afterBlock 1 (mark :: text)).map fun rest =>
      (text.take (text.length - rest.length - 2), inner, rest)

/-- Whether every carriage return has its line feed. -/
def crsPaired : List Char → Bool
  | [] => true
  | '\r' :: '\n' :: rest => crsPaired rest
  | '\r' :: _ => false
  | _ :: rest => crsPaired rest

/-- The attribute that a doc comment stands for. -/
def docLexemes (text : List Char) (inner : Bool) : List Lexeme :=
  let mark := .punct '#' false :: if inner then [.punct '!' false] else []
  mark.map .leaf ++ [
    .opening .bracket, .leaf (.word "doc"), .leaf (.punct '=' false),
    .leaf (.literal (quoted (String.ofList text))), .closing .bracket]

/-- The lexemes of what stands at the start of a text that is neither empty nor blank. -/
def lexemes? (text : List Char) : Option (List Lexeme × List Char) :=
  match docComment? text with
  | some (doc, inner, rest) => if crsPaired doc then some (docLexemes doc inner, rest) else none
  | none =>
    if errorPlaceholder.toList.isPrefixOf text then
      some ([.leaf (.literal errorPlaceholder)], text.drop errorPlaceholder.length)
    else
      match text with
      | '(' :: rest => some ([.opening .paren], rest)
      | '[' :: rest => some ([.opening .bracket], rest)
      | '\x7b' :: rest => some ([.opening .brace], rest)
      | ')' :: rest => some ([.closing .paren], rest)
      | ']' :: rest => some ([.closing .bracket], rest)
      | '\x7d' :: rest => some ([.closing .brace], rest)
      | _ => (leaf? text).map fun (t, rest) => ([.leaf t], rest)

/-- All lexemes of a text. Every step reads at least one character, so the length of the text bounds
the steps. -/
def cut (text : List Char) : Option (List Lexeme) := go (text.length + 1) text
where
  go : Nat → List Char → Option (List Lexeme)
    | 0, _ => none
    | _ + 1, [] => some []
    | fuel + 1, text =>
      match afterBlank? text with
      | some rest => go fuel rest
      | none =>
        match lexemes? text with
        | some (found, rest) => (go fuel rest).map (found ++ ·)
        | none => none

/-! ## 6. Groups -/

/-- Pairs the brackets. `current` is the group being read, last token first, and `outer` are the
groups around it. -/
def nest (current : List Token) (outer : List (Delimiter × List Token)) :
    List Lexeme → Option (List Token)
  | [] => if outer.isEmpty then some current.reverse else none
  | .leaf t :: rest => nest (t :: current) outer rest
  | .opening d :: rest => nest [] ((d, current) :: outer) rest
  | .closing d :: rest =>
    match outer with
    | (d', around) :: outer =>
      if d = d' then nest (.group d current.reverse :: around) outer rest else none
    | [] => none

/-- The text without the mark of its byte order. -/
def dropByteOrderMark : List Char → List Char
  | '\ufeff' :: rest => rest
  | text => text

/-- The tokens of a text, or nothing if it has something that is no token or if its brackets do not
match. -/
def tokens? (text : String) : Option (List Token) :=
  (cut (dropByteOrderMark text.toList)).bind (nest [] [])

end EnumCatalog.Lexer
