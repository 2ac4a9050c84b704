import EnumCatalog.Text.CaseMap
import EnumCatalog.Text.Letter

/-!
# Snake case

`OrderStatus` is `order_status`. A name is first cut into words and the words are then written in
lowercase with underscores between them, so the file has two halves.

**Words.** Whatever is neither a letter nor a digit separates words and is dropped; within a run of
letters and digits a word also ends

* between a lowercase letter and the uppercase letter after it (`order|Status`), and
* before the last of several uppercase letters that a lowercase letter follows (`HTTP|Server`).

Characters without case, such as digits, never start a word: they take over the case of the letter
before them, which is why the walk carries a `Run` instead of looking at the previous character.

**Lowercase.** The mapping is per character except for one: a capital sigma at the end of a word
becomes the final form of the letter.
-/

set_option autoImplicit false

namespace EnumCatalog.Text

/-! ## 1. Words -/

/-- The case of the last cased letter of the word that is being read. -/
inductive Run where
  | uncased
  | lower
  | upper
  deriving DecidableEq, Repr

/-- The run after one more character of the same word. -/
def Run.next (r : Run) (c : Char) : Run :=
  if isLowercase c then .lower else if isUppercase c then .upper else r

/-- The words of a run of letters and digits. `word` holds what has been read of the current word,
last character first. -/
def wordsFrom (r : Run) (word : List Char) : List Char → List (List Char)
  | [] => if word.isEmpty then [] else [word.reverse]
  | [c] => [(c :: word).reverse]
  | c :: d :: rest =>
    if r.next c = .lower ∧ isUppercase d then
      (c :: word).reverse :: wordsFrom .uncased [] (d :: rest)
    else if r = .upper ∧ isUppercase c ∧ isLowercase d then
      word.reverse :: wordsFrom .uncased [c] (d :: rest)
    else
      wordsFrom (r.next c) (c :: word) (d :: rest)

/-- The maximal runs of letters and digits; `run` is the current one, last character first. -/
def alphanumericRuns (run : List Char) : List Char → List (List Char)
  | [] => [run.reverse]
  | c :: rest =>
    if isAlphanumeric c then alphanumericRuns (c :: run) rest
    else run.reverse :: alphanumericRuns [] rest

def words (name : List Char) : List (List Char) :=
  (alphanumericRuns [] name).flatMap (wordsFrom .uncased [])

/-! ## 2. Lowercase -/

def lowerWord : List Char → List Char
  | [] => []
  | c :: rest => (if c == 'Σ' && rest.isEmpty then ['ς'] else lower c) ++ lowerWord rest

def snakeCase (name : String) : String :=
  String.ofList (List.intercalate ['_'] ((words name.toList).map lowerWord))

end EnumCatalog.Text
