import EnumCatalog.Syntax.Fragment

/-!
# Reading tokens

A `Reader` reads a piece of syntax from the front of a token stream or fails. While it reads, it
writes down the fragment of what it has read, so a rule of the grammar says at once what is valid
and how it prints: `op "=>"` reads an arrow and prints one.

What prints is not always what was read. Punctuation prints as the grammar sees it (`>>` that closes
two lists prints as two characters), and some rules drop or reorder tokens. Three combinators cover
those cases:

* `silent` reads without printing, for syntax that is printed from the value it was read into;
* `captured` hands over the fragment instead of writing it down;
* `asWritten` prints the tokens exactly as they stand in the source and mentions nothing. It is for
  syntax that is accepted but has no meaning yet.

Brackets are tokens, so a reader within brackets is a reader on its own (`inGroup`) and has to
read all there is.
-/

set_option autoImplicit false

namespace EnumCatalog.Syntax

/-! ## 1. Looking ahead -/

/-- Whether the tokens open with these punctuation characters, each touching the next. -/
def atChars : List Char → List Token → Bool
  | [], _ => true
  | [c], .punct d _ :: _ => c == d
  | c :: rest, .punct d true :: ts => c == d && atChars rest ts
  | _, _ => false

/-- Whether the tokens open with an operator. A longer operator opens with a shorter one. -/
def atOp (op : String) (ts : List Token) : Bool := atChars op.toList ts

/-- Whether the tokens open with a plain word. -/
def atWord (w : String) : List Token → Bool
  | .ident i :: _ => i.isWord w
  | _ => false

/-- Whether the tokens open with one of several plain words. -/
def atWordIn (ws : List String) (ts : List Token) : Bool := ws.any (atWord · ts)

/-- Whether the tokens open with an identifier that can name something. -/
def atName : List Token → Bool
  | .ident i :: _ => i.isName
  | _ => false

/-- Whether the tokens open with any identifier or keyword. -/
def atIdent : List Token → Bool
  | .ident _ :: _ => true
  | _ => false

/-- Whether the tokens open with a lifetime. -/
def atLifetime : List Token → Bool
  | .lifetime _ :: _ => true
  | _ => false

/-- Whether the tokens open with brackets of a kind. -/
def atGroup (d : Delimiter) : List Token → Bool
  | .group d' _ :: _ => d == d'
  | _ => false

/-- Whether the tokens open with brackets. -/
def atAnyGroup : List Token → Bool
  | .group _ _ :: _ => true
  | _ => false

/-- Whether the text is that of a number. -/
def isNumber (text : String) : Bool :=
  match Literal.kind text with
  | .int => true
  | .float => true
  | _ => false

/-- Whether the tokens open with a literal: a literal token, a truth value or a negative number. -/
def atLiteral : List Token → Bool
  | .literal _ :: _ => true
  | .ident i :: _ => i.isWord "true" || i.isWord "false"
  | .punct '-' _ :: .literal text :: _ => isNumber text
  | _ => false

/-- Whether the tokens open with a literal of a kind. -/
def atLiteralOf (k : Literal.Kind) : List Token → Bool
  | .literal text :: _ => Literal.kind text == k
  | _ => false

/-- Whether the tokens open with a name or one of the words that open paths. -/
def atPathWord (ts : List Token) : Bool :=
  atName ts || atWordIn ["super", "self", "Self", "crate"] ts

/-! ## 2. Readers -/

/-- Where a reader stands: the tokens ahead, and what it has written down, last first. -/
structure Cursor where
  rest : List Token
  printed : List Token
  mentioned : List String

/-- Reads a piece of syntax, or fails. -/
abbrev Reader := StateT Cursor Option

namespace Reader

/-- A reader's start on a token stream. -/
def start (ts : List Token) : Cursor := ⟨ts, [], []⟩

def written (c : Cursor) : Fragment := ⟨c.printed.reverse, c.mentioned.reverse⟩

/-- Runs a reader on all of a token stream. -/
def run? {α : Type} (r : Reader α) (ts : List Token) : Option α :=
  match StateT.run r (start ts) with
  | some (a, c) => if c.rest.isEmpty then some a else none
  | none => none

def ahead : Reader (List Token) := do return (← get).rest

/-- Whether the tokens ahead satisfy a test. -/
def sees (test : List Token → Bool) : Reader Bool := do return test (← ahead)

def atEnd : Reader Bool := sees List.isEmpty

def require (b : Bool) : Reader Unit := if b then pure () else failure

def emit (f : Fragment) : Reader Unit :=
  modify fun c =>
    { c with
      printed := f.tokens.reverse ++ c.printed
      mentioned := f.mentions.reverse ++ c.mentioned }

def emitTokens (ts : List Token) : Reader Unit := emit (.plain ts)

/-- Runs a reader and takes the fragment from it. -/
def captured {α : Type} (r : Reader α) : Reader (α × Fragment) := fun c =>
  match r ⟨c.rest, [], []⟩ with
  | some (a, c') => some ((a, written c'), { c with rest := c'.rest })
  | none => none

/-- Runs a reader and drops the fragment. -/
def silent {α : Type} (r : Reader α) : Reader α := do return (← captured r).1

/-- Runs a reader whose value knows how it prints. -/
def printing {α : Type} (fragment : α → Fragment) (r : Reader α) : Reader α := do
  let a ← silent r
  emit (fragment a)
  return a

/-- Replaces what has been written down since an earlier point by the tokens read since then. -/
def restoreSince (earlier : Cursor) : Reader Unit :=
  modify fun c =>
    let read := earlier.rest.take (earlier.rest.length - c.rest.length)
    ⟨c.rest, read.reverse ++ earlier.printed, earlier.mentioned⟩

/-- Takes back the first mention that has been written down since an earlier point. -/
def forgetMention (earlier : Cursor) : Reader Unit :=
  modify fun c =>
    let recent := c.mentioned.take (c.mentioned.length - earlier.mentioned.length)
    { c with mentioned := recent.dropLast ++ earlier.mentioned }

/-- Runs a reader and prints what it read as it stands in the source. -/
def asWritten {α : Type} (r : Reader α) : Reader α := do
  let earlier ← get
  let a ← r
  restoreSince earlier
  return a

def next : Reader Token := do
  match (← get).rest with
  | t :: rest => modify ({ · with rest }); return t
  | [] => failure

/-! ## 3. Terminals -/

def op (s : String) : Reader Unit := do
  require (atOp s (← ahead))
  modify fun c => { c with rest := c.rest.drop s.length }
  emitTokens (Token.operator s.toList)

/-- Reads an operator if it is there, and says whether it was. -/
def op? (s : String) : Reader Bool := do
  if ← sees (atOp s) then op s; return true else return false

def word (w : String) : Reader Unit := do
  require (atWord w (← ahead))
  emitTokens [← next]

/-- Reads a plain word if it is there, and says whether it was. -/
def word? (w : String) : Reader Bool := do
  if ← sees (atWord w) then word w; return true else return false

/-- Reads any identifier or keyword. -/
def anyIdent : Reader Ident := do
  match ← next with
  | .ident i => emitTokens [.ident i]; return i
  | _ => failure

def name : Reader Ident := do
  require (atName (← ahead))
  anyIdent

def lifetime : Reader Unit := do
  require (atLifetime (← ahead))
  emitTokens [← next]

/-- Reads a lifetime if it is there, and says whether it was. -/
def lifetime? : Reader Bool := do
  if ← sees atLifetime then lifetime; return true else return false

/-- Reads a literal. A negative number is one literal. -/
def literal : Reader Unit := do
  require (atLiteral (← ahead))
  match ← next with
  | .punct _ _ =>
    match ← next with
    | .literal text => emitTokens [.literal ("-" ++ text)]
    | _ => failure
  | t => emitTokens [t]

/-- Reads brackets of a kind and, with the given reader, all that is in them. -/
def inGroup {α : Type} (d : Delimiter) (r : Reader α) : Reader α := do
  match ← next with
  | .group d' inner =>
    require (d == d')
    match StateT.run r (start inner) with
    | some (a, c) =>
      require c.rest.isEmpty
      emit ((written c).within d)
      return a
    | none => failure
  | _ => failure

/-- Reads brackets of any kind and leaves what is in them as it is. -/
def anyGroup : Reader (Delimiter × List Token) := do
  match ← next with
  | .group d inner => emitTokens [.group d inner]; return (d, inner)
  | _ => failure

/-- Reads everything ahead as it is. -/
def everything : Reader Unit := do
  let ts ← ahead
  modify ({ · with rest := [] })
  emitTokens ts

/-! ## 4. Repetition

A repetition ends because each round reads at least one token: as many rounds are granted as there
are tokens ahead, and one to find out that it is over. -/

/-- Repeats a reader, handing on a state, for as long as it answers with a new one. -/
def iterate {σ : Type} (s : σ) (r : σ → Reader (Option σ)) : Reader Unit := do
  rounds s ((← ahead).length + 1)
where
  rounds (s : σ) : Nat → Reader Unit
    | 0 => failure
    | n + 1 => do
      match ← r s with
      | some s' => rounds s' n
      | none => return ()

/-- Repeats a reader for as long as it answers that there may be more. -/
def repeatWhile (r : Reader Bool) : Reader Unit :=
  iterate () fun _ => do if ← r then return some () else return none

/-- Collects what a reader finds for as long as it finds something. -/
def collect {α : Type} (r : Reader (Option α)) : Reader (List α) := do rounds ((← ahead).length + 1)
where
  rounds : Nat → Reader (List α)
    | 0 => failure
    | n + 1 => do
      match ← r with
      | some a => return a :: (← rounds n)
      | none => return []

/-- Repeats a reader until nothing is ahead. -/
def untilEnd {α : Type} (r : Reader α) : Reader (List α) :=
  collect do if ← atEnd then return none else return some (← r)

/-- Reads items with commas between them until nothing is ahead; a comma may also follow the last.
Answers the items, and whether a comma followed the last. -/
def commaList {α : Type} (r : Reader α) : Reader (List α × Bool) := do
  let items ← collect do
    if ← atEnd then return none
    let a ← r
    if ← atEnd then return some (a, false)
    op ","
    return some (a, true)
  return (items.map Prod.fst, (items.getLast?.map Prod.snd).getD false)

end Reader

end EnumCatalog.Syntax
