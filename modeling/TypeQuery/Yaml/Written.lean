import TypeQuery.Yaml.Scalar
import TypeQuery.Yaml.Symbol

/-!
# Writing texts

How a text is written as an item of a block sequence.  Plainly, if it reads back as the same text;
otherwise in single quotes; in double quotes, with escapes, if it holds characters that cannot be
shown; and over several lines, if it holds a line feed.
-/

namespace TypeQuery.Yaml.Written

/-- A character that can be shown as it is. -/
def isPrintable (c : Char) : Bool :=
  let n := c.toNat
  n = 0x0A || (0x20 ≤ n && n ≤ 0x7E) || (0xA0 ≤ n && n ≤ 0xD7FF) ||
    (0xE000 ≤ n && n ≤ 0xFFFD && n ≠ 0xFEFF) || 0x10000 ≤ n

/-- A break among the characters of a text that is to be written. -/
def isLineBreak (c : Char) : Bool := isBreak c || c = '\r' || c = '\u0085'

/-- The end of the text, or a character that separates words. -/
def separates (next : Option Char) : Bool :=
  (next.map fun c => isBlank c || isLineBreak c || c = '\x00').getD true

/-- Neighbours in a text: each character, with the one before it and the one after it. -/
def neighbours (before : Option Char) : List Char → List (Option Char × Char × Option Char)
  | [] => []
  | c :: cs => (before, c, cs.head?) :: neighbours (some c) cs

/-- The character would be read as an indicator where it stands. -/
def isIndicatorAt : Option Char × Char × Option Char → Bool
  | (none, c, next) =>
    "#,[]\x7b\x7d&*!|>'\"%@\x60".toList.contains c ||
      (['?', ':', '-'].contains c && separates next)
  | (some before, c, next) => (c = ':' && separates next) || (c = '#' && separates (some before))

/-- Two neighbouring characters pass two tests somewhere in a text. -/
def hasPair (p q : Char → Bool) (cs : List Char) : Bool :=
  (cs.zip (cs.drop 1)).any fun (a, b) => p a && q b

/-- The text starts or ends with a space or a break. -/
def isPaddedText (cs : List Char) : Bool :=
  let spacing := fun (c : Option Char) => (c.map fun c => c = ' ' || isLineBreak c).getD false
  spacing cs.head? || spacing cs.getLast?

/-- The text holds characters that cannot be shown, or spaces at the end of a line. -/
def needsEscapes (cs : List Char) : Bool :=
  cs.any (!isPrintable ·) || hasPair (· = ' ') isLineBreak cs

/-- Written plainly, the text reads back as the same text. -/
def isPlain (cs : List Char) : Bool :=
  !needsEscapes cs && !cs.any isLineBreak && !isPaddedText cs &&
    !(neighbours none cs).any isIndicatorAt &&
    cs.take 3 ≠ "---".toList && cs.take 3 ≠ "...".toList

/-- In single quotes, the text reads back as the same text. -/
def isSingleQuotable (cs : List Char) : Bool :=
  !needsEscapes cs && !hasPair isLineBreak (· = ' ') cs

/-- Over several lines, the text reads back as the same text. -/
def isLiteral (cs : List Char) : Bool := !needsEscapes cs && cs.getLast? ≠ some ' '

/-- A number in hexadecimal with a given number of digits. -/
def hexText (digits n : Nat) : List Char :=
  let hex := (Nat.toDigits 16 n).map Char.toUpper
  List.replicate (digits - hex.length) '0' ++ hex

/-- The escape for a character in double quotes; none if it is shown as it is. -/
def escape? (c : Char) : Option (List Char) :=
  let n := c.toNat
  match c with
  | '\x00' => some ['\\', '0']
  | '\x07' => some ['\\', 'a']
  | '\x08' => some ['\\', 'b']
  | '\t' => some ['\\', 't']
  | '\n' => some ['\\', 'n']
  | '\x0b' => some ['\\', 'v']
  | '\x0c' => some ['\\', 'f']
  | '\r' => some ['\\', 'r']
  | '\x1b' => some ['\\', 'e']
  | '"' | '\\' => some ['\\', c]
  | '\u0085' => some ['\\', 'N']
  | '\u2028' => some ['\\', 'L']
  | '\u2029' => some ['\\', 'P']
  | _ =>
    if isPrintable c then none
    else if n ≤ 0xFF then some ('\\' :: 'x' :: hexText 2 n)
    else if n ≤ 0xFFFF then some ('\\' :: 'u' :: hexText 4 n)
    else some ('\\' :: 'U' :: hexText 8 n)

/-- The text in double quotes. -/
def doubleQuoted (cs : List Char) : List Char :=
  '"' :: cs.flatMap (fun c => (escape? c).getD [c]) ++ ['"']

/-- Puts the indentation in front of every line but the first, as it is continued. -/
def continued (indent : Nat) (afterBreak : Bool) : List Char → List Char
  | [] => []
  | c :: cs =>
    if isLineBreak c then c :: continued indent true cs
    else if afterBreak then List.replicate indent ' ' ++ c :: continued indent false cs
    else c :: continued indent false cs

/-- The text in single quotes. -/
def singleQuoted (indent : Nat) (cs : List Char) : List Char :=
  let doubled := cs.flatMap fun c => if c = '\'' then ['\'', '\''] else [c]
  let tail := if (cs.getLast?.map isLineBreak).getD false then List.replicate indent ' ' else []
  '\'' :: continued indent false doubled ++ tail ++ ['\'']

/-- The indicators of a text over several lines: its indentation, if the first line does not show
it, and what becomes of the breaks at its end. -/
def blockIndicators (cs : List Char) : List Char :=
  let hint := if (cs.head?.map fun c => c = ' ' || isLineBreak c).getD false then ['2'] else []
  let last := fun (cs : List Char) => (cs.getLast?.map isLineBreak).getD false
  let chomping :=
    if !last cs then ['-'] else if cs.length = 1 || last cs.dropLast then ['+'] else []
  '|' :: hint ++ chomping

/-- The text over several lines. -/
def literal (indent : Nat) (cs : List Char) : List Char :=
  blockIndicators cs ++ '\n' :: continued indent true cs

/-- Ends a line, unless a line break of any kind has just ended it. -/
def endLine (cs : List Char) : List Char :=
  if (cs.getLast?.map isLineBreak).getD false then cs else cs ++ ['\n']

/-- A text as it is written behind the dash of an item; `indent` is the indentation of its further
lines. -/
def item (indent : Nat) (text : String) : String :=
  let cs := text.toList
  let quoted := if isSingleQuotable cs then singleQuoted indent cs else doubleQuoted cs
  String.ofList <| endLine <|
    if cs.contains '\n' then if isLiteral cs then literal indent cs else doubleQuoted cs
    else if Scalar.isAmbiguous text || !isPlain cs then quoted
    else cs

end TypeQuery.Yaml.Written
