import TableTree.Toml.Blank
/-!
# Strings

A basic string stands in double quotes and knows escapes, a literal string stands in single quotes
and knows none. A string in three quotes may run over several lines: a line break right after the
opening quotes is left out, one or two quotes in a row are part of it, and so are the quotes that
stand before the last three.

Results:

* `line`: a string on one line, as it is also used for keys.
* `text`: a string of any of the four forms.
-/

namespace TableTree.Toml

open Reader

/-- The value of a hexadecimal digit. -/
def hexDigit (c : Char) : Nat :=
  if c.isDigit then c.toNat - '0'.toNat
  else if 'a' ≤ c then c.toNat - 'a'.toNat + 10
  else c.toNat - 'A'.toNat + 10

/-- Whether a character is a hexadecimal digit. -/
def isHex (c : Char) : Bool := c.isDigit || ('a' ≤ c && c ≤ 'f') || ('A' ≤ c && c ≤ 'F')

/-- The character whose number is given by so many hexadecimal digits. -/
def numbered (count : Nat) : Reader Char := do
  let digits ← exactly count isHex
  let code := digits.foldl (fun n c => 16 * n + hexDigit c) 0
  if h : code.isValidChar then pure (Char.ofNatAux code h) else failure

/-- The character that an escape stands for. -/
def escape : Reader Char := do
  char '\\'
  match ← satisfying fun _ => true with
  | 'b' => pure '\x08'
  | 't' => pure '\t'
  | 'n' => pure '\n'
  | 'f' => pure '\x0c'
  | 'r' => pure '\r'
  | '"' => pure '"'
  | '\\' => pure '\\'
  | 'u' => numbered 4
  | 'U' => numbered 8
  | _ => failure

/-- A character of a basic string. -/
def basicChar : Reader Char :=
  satisfying (fun c => isPlain c && c ≠ '"' && c ≠ '\\') <|> escape

/-- A character of a literal string. -/
def literalChar : Reader Char := satisfying fun c => isPlain c && c ≠ '\''

/-- A string on one line. -/
def line : Reader String :=
  String.ofList <$> (char '"' *> many basicChar <* char '"' <|>
    char '\'' *> many literalChar <* char '\'')

/-- A backslash at the end of a line, which leaves out all blanks and line breaks after it. -/
def joint : Reader Unit := do
  char '\\'
  blanks
  lineBreak
  let _ ← many ((do let _ ← satisfying isBlank) <|> lineBreak)

/-- A run of quotes. -/
def quotes (quote : Char) : Reader (List Char) := Reader.takeWhile (· == quote)

/-- One or two quotes in a row. -/
def innerQuotes (quote : Char) : Reader (List Char) := do
  let run ← quotes quote
  if run.length = 1 ∨ run.length = 2 then pure run else failure

/-- A string in three quotes, made of parts. -/
def paragraph (quote : Char) (part : Reader (List Char)) : Reader String := do
  let _ ← [quote, quote, quote].mapM char
  let _ ← maybe lineBreak
  let parts ← many (part <|> lineBreak *> pure ['\n'] <|> innerQuotes quote)
  let run ← quotes quote
  if 3 ≤ run.length ∧ run.length ≤ 5 then
    pure (String.ofList (parts.flatten ++ run.drop 3))
  else failure

/-- A string. -/
def text : Reader String :=
  paragraph '"' (joint *> pure [] <|> List.singleton <$> basicChar) <|>
    paragraph '\'' (List.singleton <$> literalChar) <|> line

end TableTree.Toml
