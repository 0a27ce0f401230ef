import DocTree.Text.Utf8
import DocTree.Text.Letter

/-!
# Words of a name

A name such as `dataFooBar`, `font-size` or `XMLName` is a sequence of words. A word ends at white
space, at `-`, `_` and `.`, which belong to no word, and in front of a capital that follows a
character other than a capital, or that itself is followed by a small letter. Digits never divide
words.

From its words a name is spelled anew: in small letters with dashes (`kebab`), with capitals at the
start of each word (`pascal`), or of each word but the first (`camel`).
-/

namespace DocTree.Words

/-! ## Splitting -/

/-- What a character does to the words of a name. -/
inductive Boundary where
  /-- The character continues the current word. -/
  | inside
  /-- The character ends the current word and belongs to none. -/
  | gap
  /-- The character begins a new word. -/
  | start
  deriving DecidableEq, Repr

/-- Is `c` a separator of words? -/
def isSeparator (c : Char) : Bool := isBlank c || c == '-' || c == '_' || c == '.'

/-- What `curr` does, between its neighbours `prev` and `next`. -/
def boundary (prev curr next : Char) : Boundary :=
  if Letter.isLower curr && !Letter.isNumber prev then .inside
  else if Letter.isUpper prev && Letter.isUpper curr && Letter.isUpper next then .inside
  else if isSeparator curr then .gap
  else if !Letter.isUpper prev && Letter.isUpper curr then .start
  else if Letter.isUpper prev && Letter.isUpper curr && Letter.isLower next then .start
  else .inside

/-- Puts the reversed word, if it is not empty, in front of the words found so far. -/
def push (word : List Char) (done : List (List Char)) : List (List Char) :=
  if word.isEmpty then done else word.reverse :: done

/-- Splits on behind `prev`. `word` is the current word and `done` the words before it, both with
the last item first. The ends of a name count as the character U+0000. -/
def splitFrom : Char → List Char → List Char → List (List Char) → List (List Char)
  | _, [], word, done => (push word done).reverse
  | prev, curr :: rest, word, done =>
    match boundary prev curr (rest.headD (Char.ofNat 0)) with
    | .inside => splitFrom curr rest (curr :: word) done
    | .gap => splitFrom curr rest [] (push word done)
    | .start => splitFrom curr rest [curr] (push word done)

/-- The words of a name. -/
def split (name : Bytes) : List (List Char) := splitFrom (Char.ofNat 0) (Utf8.decode name) [] []

/-! ## Spelling -/

/-- A word in small letters. -/
def lower (word : List Char) : List Char := word.map Letter.toLower

/-- A word with a capital in front, the rest in small letters. -/
def capitalized : List Char → List Char
  | [] => []
  | c :: rest => Letter.toUpper c :: lower rest

/-- Words in small letters, joined by dashes. -/
def kebab (name : Bytes) : Bytes :=
  Bytes.join (ascii "-") ((split name).map fun w => Utf8.encode (lower w))

/-- Words run together, each with a capital in front. -/
def pascal (name : Bytes) : Bytes := Utf8.encode ((split name).flatMap capitalized)

/-- Words run together, each but the first with a capital in front. -/
def camel (name : Bytes) : Bytes :=
  match split name with
  | [] => []
  | w :: ws => Utf8.encode (lower w ++ ws.flatMap capitalized)

end DocTree.Words
