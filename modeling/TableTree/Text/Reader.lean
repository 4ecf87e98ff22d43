/-!
# Readers

A reader takes characters from the front of a text, or fails and takes none. `r <|> s` reads with
`r`, and where that fails with `s` from the same place.

Results:

* `Reader.takeWhile`: a longest run of characters.
* `Reader.many`: repeated reading, which ends since each round must take a character.
-/

namespace TableTree

/-- Reads a value from the front of a text. -/
abbrev Reader := StateT (List Char) Option

namespace Reader

variable {α : Type}

/-- The next character, if it passes a test. -/
def satisfying (test : Char → Bool) : Reader Char
  | [] => none
  | c :: rest => if test c then some (c, rest) else none

/-- One given character. -/
def char (c : Char) : Reader Unit := do let _ ← satisfying (· == c)

/-- The given characters, one after the other. -/
def word (w : String) : Reader Unit := w.toList.forM char

/-- The longest run of characters that pass a test; it may be empty. -/
def takeWhile (test : Char → Bool) : Reader (List Char) := fun s =>
  some (s.takeWhile test, s.dropWhile test)

/-- As many characters as given, each of which passes a test. -/
def exactly (count : Nat) (test : Char → Bool) : Reader (List Char) :=
  (List.replicate count test).mapM satisfying

/-- Reads what may be absent. -/
def maybe (r : Reader α) : Reader (Option α) := some <$> r <|> pure none

/-- The end of the text. -/
def finish : Reader Unit
  | [] => some ((), [])
  | _ :: _ => none

/-- The values of a reader until it fails, each of which must take at least one character. -/
def manyFrom (r : Reader α) (s : List Char) : List α × List Char :=
  match r s with
  | none => ([], s)
  | some (a, rest) =>
    if rest.length < s.length then
      let (as, rest) := manyFrom r rest
      (a :: as, rest)
    else ([], s)
termination_by s.length

/-- Reads values until none can be read; there may be none at all. -/
def many (r : Reader α) : Reader (List α) := fun s => some (manyFrom r s)

/-- Values with a separator between each two of them; there may be none at all. -/
def separated (r : Reader α) (separator : Reader Unit) : Reader (List α) := do
  match ← maybe r with
  | none => pure []
  | some first => (first :: ·) <$> many (separator *> r)

/-- The value of a whole text. -/
def whole? (r : Reader α) (s : String) : Option α :=
  ((r <* finish).run s.toList).map (·.1)

end Reader

end TableTree
