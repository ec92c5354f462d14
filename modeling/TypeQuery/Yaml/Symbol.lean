/-!
# The characters of a YAML stream

Where a character stands matters in YAML: indentation is a column, and a key has to fit on one
line.  So a stream is read as a list of symbols, which are characters with their places.  Every way
to break a line that has no meaning of its own is read as one line feed, two characters together
included; the line and paragraph separators of Unicode stay what they are.
-/

namespace TypeQuery.Yaml

/-- A character and its place.  `column` counts characters, and `offset` counts bytes. -/
structure Symbol where
  char : Char
  line : Nat
  column : Nat
  offset : Nat

/-! ## Kinds of characters -/

/-- A space or a tab. -/
def isBlank (c : Char) : Bool := c = ' ' || c = '\t'

/-- A line break, among the characters of symbols. -/
def isBreak (c : Char) : Bool := c = '\n' || c = '\u2028' || c = '\u2029'

/-- A blank or a line break. -/
def isSpacing (c : Char) : Bool := isBlank c || isBreak c

/-- A character of names of anchors, directives and tag handles. -/
def isWord (c : Char) : Bool := c.isAlphanum || c = '_' || c = '-'

/-- An indicator that ends an unquoted text inside brackets. -/
def isFlowIndicator (c : Char) : Bool := [',', '[', ']', '\x7b', '\x7d'].contains c

/-- The byte order mark. -/
def byteOrderMark : Char := '\ufeff'

/-- A character that may stand in a stream. -/
def isAllowed (c : Char) : Bool :=
  let n := c.toNat
  n = 0x09 || n = 0x0A || n = 0x0D || (0x20 ≤ n && n ≤ 0x7E) || n = 0x85 ||
    (0xA0 ≤ n && n ≤ 0xD7FF) || (0xE000 ≤ n && n ≤ 0xFFFD) || 0x10000 ≤ n

/-! ## Streams -/

/-- The symbols of a text that starts at a given place. -/
def symbolsFrom (line column offset : Nat) : List Char → List Symbol
  | [] => []
  | '\r' :: '\n' :: cs => ⟨'\n', line, column, offset⟩ :: symbolsFrom (line + 1) 0 (offset + 2) cs
  | c :: cs =>
    let next := offset + c.utf8Size
    if c = '\r' ∨ c = '\n' ∨ c = '\u0085' then
      ⟨'\n', line, column, offset⟩ :: symbolsFrom (line + 1) 0 next cs
    else if isBreak c then ⟨c, line, column, offset⟩ :: symbolsFrom (line + 1) 0 next cs
    else ⟨c, line, column, offset⟩ :: symbolsFrom line (column + 1) next cs

/-- The symbols of a text; none if a character is not allowed. -/
def symbols? (text : String) : Option (List Symbol) :=
  if text.toList.all isAllowed then some (symbolsFrom 0 0 0 text.toList) else none

/-- The character at a position of a list of symbols. -/
def charAt? (ss : List Symbol) (i : Nat) : Option Char := ss[i]?.map Symbol.char

/-- At this position there is spacing, or the stream has ended. -/
def isSpacedAt (ss : List Symbol) (i : Nat) : Bool := ((charAt? ss i).map isSpacing).getD true

/-- The column of the next symbol. -/
def columnOf (ss : List Symbol) : Nat := (ss.head?.map Symbol.column).getD 0

/-- The characters of symbols. -/
def charsOf (ss : List Symbol) : List Char := ss.map Symbol.char

/-- A document mark stands here: three times `mark` at the start of a line, and then spacing. -/
def isMarkOf (mark : Char) (ss : List Symbol) : Bool :=
  columnOf ss = 0 && charsOf (ss.take 3) = [mark, mark, mark] && isSpacedAt ss 3

/-- The mark of the start or of the end of a document stands here. -/
def isDocumentMark (ss : List Symbol) : Bool := isMarkOf '-' ss || isMarkOf '.' ss

end TypeQuery.Yaml
