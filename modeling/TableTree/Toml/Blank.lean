import TableTree.Text.Reader
/-!
# Blanks, comments and line ends

A line ends with a line feed, with or without a carriage return before it, or with the text. A
comment runs from `#` to the end of its line.

Results:

* `isPlain`: the characters that may stand in a comment or a string as they are.
* `lineEnd`: what may follow on a line after its content.
* `between`: blanks, line breaks and comments between the parts of an array.
-/

namespace TableTree.Toml

open Reader

/-- Tab, and all but the control characters. -/
def isPlain (c : Char) : Bool := c = '\t' || (' ' ≤ c && c ≠ '\x7f')

/-- A blank within a line. -/
def isBlank (c : Char) : Bool := c = ' ' || c = '\t'

/-- Blanks within a line. -/
def blanks : Reader Unit := do let _ ← Reader.takeWhile isBlank

/-- A line break. -/
def lineBreak : Reader Unit := char '\n' <|> word "\r\n"

/-- A comment up to its line's end. -/
def comment : Reader Unit := do
  char '#'
  let _ ← Reader.takeWhile isPlain

/-- The end of a line after its content. -/
def lineEnd : Reader Unit := do
  blanks
  let _ ← maybe comment
  lineBreak <|> finish

/-- Blanks, line breaks and comments. -/
def between : Reader Unit := do
  let _ ← many ((do let _ ← satisfying isBlank) <|> lineBreak <|> comment *> lineBreak)

end TableTree.Toml
