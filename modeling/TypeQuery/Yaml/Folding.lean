import TypeQuery.Yaml.Symbol

/-!
# Texts over several lines

A text in a YAML stream may run over several lines, and its line breaks are folded: a single break
between two words is a space, and of more breaks all but the first are kept.  Blanks around a break
are dropped.  `Folding` is a text in the making that holds back the spacing it has just seen, since
what becomes of that depends on what follows.

The functions below read one text each, from its first symbol on, and give the text with the symbols
after it.
-/

namespace TypeQuery.Yaml

/-- A text in the making.  `text` is what is settled, with the last character first; `blanks` are
those since, with the last one first; once there was a line break, `breaks` are the first break and
all further ones, and blanks no longer count. -/
structure Folding where
  text : List Char := []
  blanks : List Char := []
  breaks : Option (List Char × List Char) := none

namespace Folding

/-- Takes a blank or a line break. -/
def space (f : Folding) (c : Char) : Folding :=
  match f.breaks with
  | none => if isBreak c then { f with blanks := [], breaks := some ([c], []) }
    else { f with blanks := c :: f.blanks }
  | some (first, more) => if isBreak c then { f with breaks := some (first, more ++ [c]) } else f

/-- What the spacing that is held back comes to. -/
def pending (f : Folding) : List Char :=
  match f.breaks with
  | none => f.blanks.reverse
  | some (['\n'], []) => [' ']
  | some (['\n'], more) => more
  | some (first, more) => first ++ more

/-- Settles the spacing that is held back. -/
def settle (f : Folding) : Folding := ⟨f.pending.reverse ++ f.text, [], none⟩

/-- Takes a character of the text itself. -/
def push (f : Folding) (c : Char) : Folding :=
  let g := f.settle
  { g with text := c :: g.text }

/-- Takes a line break that was escaped: it stands for nothing, and the blanks after it are
dropped. -/
def joinLines (f : Folding) : Folding := { f.settle with breaks := some ([], []) }

/-- A word starts after spacing. -/
def atWordStart (f : Folding) : Bool := !f.blanks.isEmpty || f.breaks.isSome

/-- The text that is settled. -/
def result (f : Folding) : String := String.ofList f.text.reverse

end Folding

/-! ## Quoted texts -/

/-- Reads the rest of a text in single quotes, in which two quotes stand for one. -/
def singleQuoted (f : Folding) : List Symbol → Option (String × List Symbol)
  | [] => none
  | s :: rest =>
    if isSpacing s.char then singleQuoted (f.space s.char) rest
    else if isDocumentMark (s :: rest) then none
    else if s.char = '\'' then
      match rest with
      | [] => some (f.settle.result, [])
      | q :: rest' =>
        if q.char = '\'' then singleQuoted (f.push '\'') rest'
        else some (f.settle.result, q :: rest')
    else singleQuoted (f.push s.char) rest

/-- The character that a letter after a backslash stands for. -/
def escaped? (c : Char) : Option Char :=
  match c with
  | '0' => some '\x00'
  | 'a' => some '\x07'
  | 'b' => some '\x08'
  | 't' | '\t' => some '\t'
  | 'n' => some '\n'
  | 'v' => some '\x0b'
  | 'f' => some '\x0c'
  | 'r' => some '\r'
  | 'e' => some '\x1b'
  | ' ' | '"' | '/' | '\\' => some c
  | 'N' => some '\u0085'
  | '_' => some '\u00a0'
  | 'L' => some '\u2028'
  | 'P' => some '\u2029'
  | _ => none

/-- The number of hexadecimal digits after a letter that follows a backslash. -/
def codeLength? (c : Char) : Option Nat :=
  match c with
  | 'x' => some 2
  | 'u' => some 4
  | 'U' => some 8
  | _ => none

/-- The value of a hexadecimal digit. -/
def hexDigit? (c : Char) : Option Nat :=
  if c.isDigit then some (c.toNat - '0'.toNat)
  else if 'a' ≤ c ∧ c ≤ 'f' then some (c.toNat - 'a'.toNat + 10)
  else if 'A' ≤ c ∧ c ≤ 'F' then some (c.toNat - 'A'.toNat + 10)
  else none

/-- The character with a given code, if there is one. -/
def charOfCode? (n : Nat) : Option Char :=
  if (0xD800 ≤ n ∧ n ≤ 0xDFFF) ∨ 0x10FFFF < n then none else some (Char.ofNat n)

/-- Reads the rest of a text in double quotes.  While the digits of a code are being read, `digits`
of them are still to come, and `code` is the value so far. -/
def doubleQuoted (f : Folding) (digits code : Nat) : List Symbol → Option (String × List Symbol)
  | [] => none
  | s :: rest =>
    match digits with
    | n + 1 =>
      match hexDigit? s.char with
      | none => none
      | some d =>
        let code := 16 * code + d
        if n = 0 then
          match charOfCode? code with
          | some c => doubleQuoted (f.push c) 0 0 rest
          | none => none
        else doubleQuoted f n code rest
    | 0 =>
      if isSpacing s.char then doubleQuoted (f.space s.char) 0 0 rest
      else if isDocumentMark (s :: rest) then none
      else if s.char = '"' then some (f.settle.result, rest)
      else if s.char = '\\' then
        match rest with
        | [] => none
        | e :: rest' =>
          if isBreak e.char then doubleQuoted f.joinLines 0 0 rest'
          else
            match escaped? e.char, codeLength? e.char with
            | some c, _ => doubleQuoted (f.push c) 0 0 rest'
            | none, some n => doubleQuoted f.settle n 0 rest'
            | none, none => none
      else doubleQuoted (f.push s.char) 0 0 rest

/-! ## Plain texts -/

/-- Reads the rest of a text without quotes.  Outside brackets its lines have to be indented by
`indent` columns at least.  The last part of the result says whether a line break ends the text. -/
def plain (inFlow : Bool) (indent : Nat) (f : Folding) :
    List Symbol → Option (String × List Symbol × Bool)
  | [] => some (f.result, [], f.breaks.isSome)
  | s :: rest =>
    let stop := some (f.result, s :: rest, f.breaks.isSome)
    if isSpacing s.char then
      if s.char = '\t' ∧ f.breaks.isSome ∧ s.column < indent then none
      else plain inFlow indent (f.space s.char) rest
    else if f.atWordStart &&
        ((!inFlow && s.column < indent) || isDocumentMark (s :: rest) || s.char = '#') then stop
    else if inFlow && s.char = ':' &&
        ((charAt? rest 0).map fun c => isFlowIndicator c || c = '?').getD false then none
    else if (s.char = ':' && isSpacedAt rest 0) || (inFlow && isFlowIndicator s.char) then stop
    else plain inFlow indent (f.push s.char) rest

/-! ## Block texts -/

/-- What becomes of the line breaks at the end of a block text. -/
inductive Chomping where
  | strip
  | clip
  | keep

/-- A block text in the making.  `text` is what is settled, with the last character first; `first`
is the break at the end of the last line, and `more` are the breaks of empty lines after it;
`indented` says that the last line started with a blank. -/
structure BlockText where
  text : List Char := []
  first : List Char := []
  more : List Char := []
  indented : Bool := false
  inLine : Bool := false

namespace BlockText

/-- Starts a line with a character.  A folded text joins two lines that both start with something
other than a blank. -/
def startLine (b : BlockText) (literal : Bool) (c : Char) : BlockText :=
  let joined :=
    if !literal && b.first = ['\n'] && !b.indented && !isBlank c then
      if b.more.isEmpty then [' '] else b.more
    else b.first ++ b.more
  ⟨c :: (joined.reverse ++ b.text), [], [], isBlank c, true⟩

/-- The text, with the breaks at its end chomped. -/
def result (b : BlockText) (c : Chomping) : String :=
  let tail := match c with
    | .strip => []
    | .clip => b.first
    | .keep => b.first ++ b.more
  String.ofList (b.text.reverse ++ tail)

end BlockText

/-- Reads the lines of a block text that is indented by `indent` columns. -/
def blockLines (literal : Bool) (indent : Nat) (b : BlockText) :
    List Symbol → Option (BlockText × List Symbol)
  | [] => some (b, [])
  | s :: rest =>
    if b.inLine then
      if isBreak s.char then blockLines literal indent { b with first := [s.char], inLine := false } rest
      else blockLines literal indent { b with text := s.char :: b.text } rest
    else if s.char = ' ' && s.column < indent then blockLines literal indent b rest
    else if s.char = '\t' && s.column < indent then none
    else if isBreak s.char then blockLines literal indent { b with more := b.more ++ [s.char] } rest
    else if s.column = indent then blockLines literal indent (b.startLine literal s.char) rest
    else some (b, s :: rest)

/-- The widest indentation of the empty lines at the start of a block text and of the first line
after them.  A tab there is an error. -/
def widestIndent (widest : Nat) : List Symbol → Option Nat
  | [] => some widest
  | s :: rest =>
    if s.char = ' ' then widestIndent (max widest (s.column + 1)) rest
    else if s.char = '\t' then none
    else if isBreak s.char then widestIndent widest rest
    else some widest

/-- The indicators of a block text: how its end is chomped, and by how many columns it is indented,
if that is said.  They come in any order. -/
def blockIndicators : List Symbol → Option (Chomping × Nat × List Symbol)
  | ss =>
    let chomping? := fun (c : Option Char) =>
      if c = some '+' then some Chomping.keep
      else if c = some '-' then some Chomping.strip else none
    let digit? := fun (c : Option Char) => (c.filter Char.isDigit).map fun d => d.toNat - '0'.toNat
    match chomping? (charAt? ss 0), digit? (charAt? ss 0) with
    | some c, _ =>
      match digit? (charAt? ss 1) with
      | some 0 => none
      | some d => some (c, d, ss.drop 2)
      | none => some (c, 0, ss.drop 1)
    | none, some 0 => none
    | none, some d =>
      match chomping? (charAt? ss 1) with
      | some c => some (c, d, ss.drop 2)
      | none => some (.clip, d, ss.drop 1)
    | none, none => some (.clip, 0, ss)

/-- Skips blanks and a comment, up to the end of the line and with it; none if there is anything
else. -/
def restOfLine? (ss : List Symbol) : Option (List Symbol) :=
  let ss := ss.dropWhile fun s => isBlank s.char
  let ss := if charAt? ss 0 = some '#' then ss.dropWhile fun s => !isBreak s.char else ss
  match ss with
  | [] => some []
  | s :: rest => if isBreak s.char then some rest else none

/-- Reads a block text from behind its indicator.  `parent` is the first column that belongs to the
text's collection and not to what is around it. -/
def blockText (literal : Bool) (parent : Nat) (ss : List Symbol) : Option (String × List Symbol) := do
  let (chomping, increment, ss) ← blockIndicators ss
  let ss ← restOfLine? ss
  let widest ← if increment = 0 then widestIndent 0 ss else pure 0
  let indent := if increment = 0 then max (max widest parent) 1 else parent - 1 + increment
  let (b, ss) ← blockLines literal indent {} ss
  return (b.result chomping, ss)

end TypeQuery.Yaml
