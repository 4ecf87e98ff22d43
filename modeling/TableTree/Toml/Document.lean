import TableTree.Toml.Number
import TableTree.Toml.Value
/-!
# Documents

A document is read line by line. A line holds a pair, the header of a table, or neither; the pairs
after a header belong to the table that it opens.

Results:

* `value`: a value, nested at most `maxNesting` times.
* `pair`: a key, an equality sign and a value.
* `Line`, `Draft.add?`: the lines and what each of them adds.
* `Fields.ofDocument?`: the fields of a whole document.
-/

namespace TableTree.Toml

open Reader

/-- A key with dots: the tables on the way, and the key in the last of them. -/
structure DottedKey where
  path : List String
  key : String
deriving DecidableEq

/-- The largest number of parts of a key. -/
def maxParts : Nat := 79

/-- The largest number of arrays and braces around a value. -/
def maxNesting : Nat := 79

/-- A key without quotes. -/
def bareKey : Reader String := do
  let isBare (c : Char) : Bool := c.isAlphanum || c = '_' || c = '-'
  let first ← satisfying isBare
  let rest ← Reader.takeWhile isBare
  pure (String.ofList (first :: rest))

/-- A key with dots, with blanks around its parts. -/
def dottedKey : Reader DottedKey := do
  let parts ← separated (blanks *> (line <|> bareKey) <* blanks) (char '.')
  match parts.getLast? with
  | some key => if parts.length ≤ maxParts then pure ⟨parts.dropLast, key⟩ else failure
  | none => failure

/-- A key, an equality sign and a value. -/
def pair (value : Reader Value) : Reader (DottedKey × Value) := do
  let key ← dottedKey
  char '='
  blanks
  pure (key, ← value)

/-- A value without others in it. -/
def scalar : Reader Value :=
  .text <$> text <|> .moment <$> moment <|> .real <$> real <|> .integer <$> integer <|>
    word "true" *> pure (.flag true) <|> word "false" *> pure (.flag false)

/-- Values in brackets; a comma may follow the last one. -/
def array (value : Reader Value) : Reader Value := do
  char '['
  let items ← separated (between *> value <* between) (char ',')
  unless items.isEmpty do let _ ← maybe (char ',')
  between
  char ']'
  pure (.array items)

/-- Pairs in braces, on one line and without a comma after the last one. -/
def braces (value : Reader Value) : Reader Value := do
  char '\x7b'
  let pairs ← separated (pair value <* blanks) (char ',')
  blanks
  char '\x7d'
  let fields : Option Fields := pairs.foldlM
    (fun fields (key, value) => fields.insert? true key.path key.key value) []
  .table .braces <$> StateT.lift fields

/-- A value, with so many arrays and braces around its parts at most. -/
def value : (nesting : Nat) → Reader Value
  | 0 => scalar
  | nesting + 1 => scalar <|> array (value nesting) <|> braces (value nesting)

/-- What a line says. -/
inductive Line where
  | nothing
  | pair (key : DottedKey) (value : Value)
  | table (key : DottedKey)
  | row (key : DottedKey)

/-- A line with its end. -/
def documentLine : Reader Line :=
  blanks *> (
    lineBreak *> pure .nothing <|>
    comment *> (lineBreak <|> finish) *> pure .nothing <|>
    (word "[[" *> .row <$> dottedKey) <* word "]]" <* lineEnd <|>
    (char '[' *> .table <$> dottedKey) <* char ']' <* lineEnd <|>
    (fun (key, value) => .pair key value) <$> pair (value maxNesting) <* lineEnd)

/-- A document as far as it is read: its fields, and the table that the last header opened. -/
structure Draft where
  fields : Fields := []
  opened : List String := []

/-- What a line adds to a document. -/
def Draft.add? (d : Draft) : Line → Option Draft
  | .nothing => some d
  | .pair key value =>
    (d.fields.within? (fun table => table.insert? true key.path key.key value) d.opened).map
      fun fields => { d with fields := fields }
  | .table key =>
    (d.fields.within? (·.openTable? key.key) key.path).map
      fun fields => ⟨fields, key.path ++ [key.key]⟩
  | .row key =>
    (d.fields.within? (·.openRow? key.key) key.path).map
      fun fields => ⟨fields, key.path ++ [key.key]⟩

/-- The lines of a document; a mark of the byte order in front is left out. -/
def lines : Reader (List Line) := maybe (char '\ufeff') *> many documentLine <* blanks

/-- The fields of a document, if it is well formed. -/
def Fields.ofDocument? (s : String) : Option Fields := do
  let ls ← lines.whole? s
  let draft ← ls.foldlM Draft.add? {}
  pure draft.fields

end TableTree.Toml
