import TypeQuery.Text.Hidden

/-!
# Quoted texts

A text between double quotes, so that a reader sees exactly which characters it holds.  The quote and
the backslash are written behind a backslash, and hidden characters by a letter or by their number.
-/

namespace TypeQuery.Text

/-- The number of a character in hexadecimal, as it is written in a quoted text. -/
def numbered (c : Char) : List Char :=
  ['\\', 'u', '\x7b'] ++ Nat.toDigits 16 c.toNat ++ ['\x7d']

/-- How a character is written in a quoted text. -/
def quotedChar (c : Char) : List Char :=
  match c with
  | '"' | '\\' => ['\\', c]
  | '\n' => ['\\', 'n']
  | '\r' => ['\\', 'r']
  | '\t' => ['\\', 't']
  | '\x00' => ['\\', '0']
  | _ => if isHidden c then numbered c else [c]

/-- The quoted text. -/
def quoted (text : String) : String :=
  String.ofList ('"' :: text.toList.flatMap quotedChar ++ ['"'])

/-- A list of quoted texts. -/
def quotedList (texts : List String) : String :=
  "[" ++ String.intercalate ", " (texts.map quoted) ++ "]"

end TypeQuery.Text
