import TableTree.Text.Unprintable
/-!
# Quoted text

Messages show names between double quotes, with everything written out that a reader could not
see. The quote and the backslash get a backslash; tab, line feed, carriage return and the null
character have short forms; any other unprintable character is written by its number.
-/

namespace TableTree.Text

/-- A number in hexadecimal digits, in lower case and without leading zeros. -/
def hex (n : Nat) : String := String.ofList (Nat.toDigits 16 n)

/-- The way a character is written between quotes. -/
def escaped (c : Char) : String :=
  match c with
  | '\x00' => "\\0"
  | '\t' => "\\t"
  | '\r' => "\\r"
  | '\n' => "\\n"
  | '"' => "\\\""
  | '\\' => "\\\\"
  | c => if isUnprintable c then "\\u\x7b" ++ hex c.toNat ++ "\x7d" else c.toString

/-- A text between double quotes. -/
def quoted (s : String) : String :=
  "\"" ++ String.join (s.toList.map escaped) ++ "\""

end TableTree.Text
