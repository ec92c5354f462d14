import TypeQuery.Yaml.Folding

/-!
# The tokens of a YAML stream

A stream is cut into tokens.  Two things make this more than a walk from left to right.

* Indentation is structure: where a line starts further right than the collection around it, a block
  collection opens, and where it starts further left, collections close.  Inside brackets
  indentation means nothing.
* A key is recognised late, by the colon behind it.  So whatever could be a key is remembered, at most
  one candidate for each open bracket, and when its colon comes the key token is put in front of it,
  together with the token that opens its mapping if that is new.  A candidate lapses at the end of its
  line, and after 1024 bytes.
-/

namespace TypeQuery.Yaml

/-- How a text is written. -/
inductive Style where
  | plain
  | singleQuoted
  | doubleQuoted
  | literal
  | folded
deriving DecidableEq

/-- A token. -/
inductive Token where
  | version (major minor : Nat)
  | tagDirective (handle : String) (uri : List UInt8)
  | documentStart
  | documentEnd
  | blockSequenceStart
  | blockMappingStart
  | blockEnd
  | flowSequenceStart
  | flowSequenceEnd
  | flowMappingStart
  | flowMappingEnd
  | flowEntry
  | blockEntry
  | key
  | value
  | alias (name : String)
  | anchor (name : String)
  | tag (handle : String) (suffix : List UInt8)
  | scalar (style : Style) (text : String)
deriving DecidableEq

/-- Something that could be a key: the number of brackets around it, the number of tokens before it,
and where it starts.  A required candidate has to turn out to be a key. -/
structure KeyCandidate where
  required : Bool
  depth : Nat
  before : Nat
  start : Symbol

/-- The candidate can no longer be a key at the symbol `here`. -/
def KeyCandidate.hasLapsed (k : KeyCandidate) (here : Symbol) : Bool :=
  k.start.line < here.line || k.start.offset + 1024 < here.offset

/-- How far a stream has been cut.  `cut` are the tokens so far, the last one first, and `count` is
their number.  `indents` are the columns of the open block collections, and `keys` are the candidates
for keys, both with the innermost first.  `depth` is the number of open brackets. -/
structure Scanner where
  rest : List Symbol
  cut : List Token := []
  count : Nat := 0
  indents : List Nat := []
  keyAllowed : Bool := true
  depth : Nat := 0
  keys : List KeyCandidate := []

namespace Scanner

/-- Inside brackets. -/
def inFlow (s : Scanner) : Bool := 0 < s.depth

/-- The first column that is further right than the innermost open block collection. -/
def inner (s : Scanner) : Nat := (s.indents.head?.map (· + 1)).getD 0

/-- Adds a token and goes on behind it. -/
def emit (s : Scanner) (t : Token) (rest : List Symbol) : Scanner :=
  { s with cut := t :: s.cut, count := s.count + 1, rest }

/-- Puts a token behind the first `position` tokens. -/
def putAt (s : Scanner) (position : Nat) (t : Token) : Scanner :=
  { s with cut := s.cut.insertIdx (s.count - position) t, count := s.count + 1 }

/-- Says whether a key may start at the next symbol. -/
def allowKey (s : Scanner) (b : Bool) : Scanner := { s with keyAllowed := b }

/-! ## Spacing -/

/-- Skips spacing and comments.  Outside brackets a key may start on a new line.  A tab is no spacing
where a key may start.  A byte order mark at the start of a line is skipped, and takes up a column. -/
def skipSpacing (inFlow : Bool) (keyAllowed inComment : Bool) : List Symbol → Bool × List Symbol
  | [] => (keyAllowed, [])
  | s :: rest =>
    if isBreak s.char then skipSpacing inFlow (keyAllowed || !inFlow) false rest
    else if inComment then skipSpacing inFlow keyAllowed true rest
    else if s.char = '#' then skipSpacing inFlow keyAllowed true rest
    else if s.char = ' ' || (s.char = '\t' && (inFlow || !keyAllowed)) ||
        (s.char = byteOrderMark && s.column = 0) then
      skipSpacing inFlow keyAllowed false rest
    else (keyAllowed, s :: rest)

/-- Goes to the next token. -/
def advance (s : Scanner) : Scanner :=
  let (keyAllowed, rest) := skipSpacing s.inFlow s.keyAllowed false s.rest
  { s with keyAllowed, rest }

/-! ## Candidates for keys -/

/-- Drops the candidates that can no longer be keys at this symbol; none if one of them had to
be. -/
def lapseKeys (s : Scanner) (here : Symbol) : Option Scanner :=
  if s.keys.any fun k => k.required && k.hasLapsed here then none
  else some { s with keys := s.keys.filter (!·.hasLapsed here) }

/-- The candidate of the innermost bracket, with the candidates around it. -/
def innerKey? (s : Scanner) : Option (KeyCandidate × List KeyCandidate) :=
  match s.keys with
  | k :: outer => if k.depth = s.depth then some (k, outer) else none
  | [] => none

/-- Drops the candidate of the innermost bracket; none if it had to be a key. -/
def dropKey (s : Scanner) : Option Scanner :=
  match s.innerKey? with
  | some (k, outer) => if k.required then none else some { s with keys := outer }
  | none => some s

/-- Takes the next symbol as the start of a candidate, where a key may start. -/
def saveKey (s : Scanner) (here : Symbol) : Option Scanner :=
  if s.keyAllowed then do
    let required := !s.inFlow && s.indents.head? = some here.column
    let s ← s.dropKey
    return { s with keys := ⟨required, s.depth, s.count, here⟩ :: s.keys }
  else some s

/-! ## Indentation -/

/-- Closes the block collections that are further right than a column; all of them without a
column. -/
def unroll (s : Scanner) (column : Option Nat) : Scanner :=
  if s.inFlow then s
  else
    let closed := (s.indents.takeWhile fun i => column.all (· < i)).length
    { s with
      indents := s.indents.drop closed
      cut := List.replicate closed .blockEnd ++ s.cut
      count := s.count + closed }

/-- Opens a block collection at a column that is further right than those open, with `token` at a
position among the tokens. -/
def roll (s : Scanner) (column : Nat) (position : Nat) (token : Token) : Scanner :=
  if !s.inFlow && s.inner ≤ column then
    { s.putAt position token with indents := column :: s.indents }
  else s

/-! ## Directives, anchors and tags -/

/-- Splits off the symbols whose characters pass a test. -/
def spanChars (p : Char → Bool) (ss : List Symbol) : String × List Symbol :=
  let (taken, rest) := ss.span fun s => p s.char
  (String.ofList (charsOf taken), rest)

/-- Skips blanks. -/
def skipBlanks (ss : List Symbol) : List Symbol := ss.dropWhile fun s => isBlank s.char

/-- A number of at most nine digits. -/
def versionNumber (ss : List Symbol) : Option (Nat × List Symbol) :=
  let (digits, rest) := spanChars Char.isDigit ss
  if digits = "" ∨ 9 < digits.length then none else digits.toNat?.map (·, rest)

/-- A tag handle: `!`, `!word!`, or, outside directives, the start of a tag without a handle. -/
def tagHandle (inDirective : Bool) (ss : List Symbol) : Option (String × List Symbol) :=
  if charAt? ss 0 = some '!' then
    let (word, rest) := spanChars isWord (ss.drop 1)
    if charAt? rest 0 = some '!' then some ("!" ++ word ++ "!", rest.drop 1)
    else if inDirective ∧ word ≠ "" then none
    else some ("!" ++ word, rest)
  else none

/-- A character of a tag.  Between angle brackets there are some more. -/
def isTagChar (verbatim : Bool) (c : Char) : Bool :=
  isWord c || ";/?:@&=+$.!~*'()%".toList.contains c || (verbatim && [',', '[', ']'].contains c)

/-- The bytes of a text, all of whose characters are ASCII. -/
def asciiBytes (text : String) : List UInt8 := text.toList.map fun c => UInt8.ofNat c.toNat

/-- How many bytes follow the first byte of a character; none if no character starts with it. -/
def bytesAfter? (first : Nat) : Option Nat :=
  if first < 0x80 then some 0
  else if 0xC0 ≤ first ∧ first < 0xE0 then some 1
  else if 0xE0 ≤ first ∧ first < 0xF0 then some 2
  else if 0xF0 ≤ first ∧ first < 0xF8 then some 3
  else none

/-- The bytes of a tag, with its percent codes decoded.  A character of several bytes is given by as
many codes in a row; `due` of them are still to come. -/
def tagBytes (due : Nat) : List Char → Option (List UInt8)
  | [] => if due = 0 then some [] else none
  | '%' :: a :: b :: cs => do
    let high ← hexDigit? a
    let low ← hexDigit? b
    let byte := 16 * high + low
    let due ←
      if due = 0 then bytesAfter? byte
      else if 0x80 ≤ byte ∧ byte < 0xC0 then some (due - 1) else none
    return UInt8.ofNat byte :: (← tagBytes due cs)
  | c :: cs =>
    if c = '%' ∨ due ≠ 0 then none else return UInt8.ofNat c.toNat :: (← tagBytes 0 cs)

/-- The text of a tag behind `start`, as bytes.  A zero byte ends it. -/
def tagText (verbatim : Bool) (start : String) (ss : List Symbol) :
    Option (List UInt8 × List Symbol) := do
  let (text, rest) := spanChars (isTagChar verbatim) ss
  if start = "" ∧ text = "" then none
  let bytes ← tagBytes 0 (start.toList.drop 1 ++ text.toList)
  return (bytes.takeWhile (· ≠ 0), rest)

/-- Reads a directive from behind its percent sign. -/
def directive (ss : List Symbol) : Option (Token × List Symbol) := do
  let (name, ss) := spanChars isWord ss
  if !isSpacedAt ss 0 then none
  match name with
  | "YAML" =>
    let (major, ss) ← versionNumber (skipBlanks ss)
    if charAt? ss 0 ≠ some '.' then none
    let (minor, ss) ← versionNumber (ss.drop 1)
    return (.version major minor, ← restOfLine? ss)
  | "TAG" =>
    let (handle, ss) ← tagHandle true (skipBlanks ss)
    if !((charAt? ss 0).map isBlank).getD false then none
    let (uri, ss) ← tagText true "" (skipBlanks ss)
    if !isSpacedAt ss 0 then none
    return (.tagDirective handle uri, ← restOfLine? ss)
  | _ => none

/-- Reads the name of an anchor or an alias. -/
def anchorName (ss : List Symbol) : Option (String × List Symbol) :=
  let (name, rest) := spanChars isWord ss
  let ends := ((charAt? rest 0).map fun c =>
    isSpacing c || ['?', ':', ',', ']', '\x7d', '%', '@', '\x60'].contains c).getD true
  if name ≠ "" ∧ ends then some (name, rest) else none

/-- Reads a tag from behind its exclamation mark on, which is the first of `ss`. -/
def tagToken (inFlow : Bool) (ss : List Symbol) : Option (Token × List Symbol) := do
  let (t, rest) ←
    if charAt? ss 1 = some '<' then do
      let (text, rest) ← tagText true "" (ss.drop 2)
      if charAt? rest 0 = some '>' then pure (Token.tag "" text, rest.drop 1) else none
    else do
      let (handle, rest) ← tagHandle false ss
      if 1 < handle.length ∧ handle.toList.getLast? = some '!' then
        let (suffix, rest) ← tagText false "" rest
        pure (Token.tag handle suffix, rest)
      else
        let (suffix, rest) ← tagText false handle rest
        pure (if suffix = [] then Token.tag "" (asciiBytes "!") else Token.tag "!" suffix, rest)
  if isSpacedAt rest 0 ∨ (inFlow ∧ charAt? rest 0 = some ',') then some (t, rest) else none

/-! ## Single tokens -/

/-- A directive or a document mark, which closes everything that is open outside brackets. -/
def outer (s : Scanner) (t : Token) (rest : List Symbol) : Option Scanner := do
  let s ← (s.unroll none).dropKey
  return (s.allowKey false).emit t rest

/-- An opening bracket. -/
def openFlow (s : Scanner) (here : Symbol) (t : Token) (rest : List Symbol) : Option Scanner := do
  let s ← s.saveKey here
  return ({ s with depth := s.depth + 1 }.allowKey true).emit t rest

/-- A closing bracket. -/
def closeFlow (s : Scanner) (t : Token) (rest : List Symbol) : Option Scanner := do
  let s ← s.dropKey
  return ({ s with depth := s.depth - 1 }.allowKey false).emit t rest

/-- A comma inside brackets. -/
def flowEntry (s : Scanner) (rest : List Symbol) : Option Scanner := do
  return ((← s.dropKey).allowKey true).emit .flowEntry rest

/-- The dash in front of an item of a block sequence. -/
def blockEntry (s : Scanner) (column : Nat) (rest : List Symbol) : Option Scanner := do
  if !s.inFlow && !s.keyAllowed then none
  let s ← (s.roll column s.count .blockSequenceStart).dropKey
  return (s.allowKey true).emit .blockEntry rest

/-- The question mark in front of a key. -/
def keyMark (s : Scanner) (column : Nat) (rest : List Symbol) : Option Scanner := do
  if !s.inFlow && !s.keyAllowed then none
  let s ← (s.roll column s.count .blockMappingStart).dropKey
  return (s.allowKey !s.inFlow).emit .key rest

/-- The colon behind a key. -/
def valueMark (s : Scanner) (column : Nat) (rest : List Symbol) : Option Scanner :=
  match s.innerKey? with
  | some (k, outer) =>
    let s := { s with keys := outer }.putAt k.before .key
    some (((s.roll k.start.column k.before .blockMappingStart).allowKey false).emit .value rest)
  | none =>
    if !s.inFlow && !s.keyAllowed then none
    else
      let s := s.roll column s.count .blockMappingStart
      some ((s.allowKey !s.inFlow).emit .value rest)

/-- Something that may be a key, and behind which no key may start. -/
def content (s : Scanner) (here : Symbol) (t : Token) (rest : List Symbol) : Option Scanner := do
  return ((← s.saveKey here).allowKey false).emit t rest

/-- A block text. -/
def blockScalar (s : Scanner) (literal : Bool) (rest : List Symbol) : Option Scanner := do
  let s ← s.dropKey
  let (text, rest) ← blockText literal s.inner rest
  return (s.allowKey true).emit (.scalar (if literal then .literal else .folded) text) rest

/-- A text without quotes. -/
def plainScalar (s : Scanner) (here : Symbol) : Option Scanner := do
  let (text, rest, broken) ← plain s.inFlow s.inner {} s.rest
  return (← s.content here (.scalar .plain text) rest).allowKey broken

/-- A character that starts no text without quotes. -/
def isIndicator (c : Char) : Bool :=
  "-?:,[]\x7b\x7d#&*!|>'\"%@\x60".toList.contains c

/-- Reads the token that starts with the symbol `here`, in front of `rest`. -/
def token (s : Scanner) (here : Symbol) (rest : List Symbol) : Option Scanner := do
  let c := here.char
  let spaced := isSpacedAt rest 0
  if here.column = 0 && c = '%' then
    let (t, rest) ← directive rest
    s.outer t rest
  else if isMarkOf '-' s.rest then s.outer .documentStart (s.rest.drop 3)
  else if isMarkOf '.' s.rest then s.outer .documentEnd (s.rest.drop 3)
  else if c = '[' then s.openFlow here .flowSequenceStart rest
  else if c = '\x7b' then s.openFlow here .flowMappingStart rest
  else if c = ']' then s.closeFlow .flowSequenceEnd rest
  else if c = '\x7d' then s.closeFlow .flowMappingEnd rest
  else if c = ',' then s.flowEntry rest
  else if c = '-' && spaced then s.blockEntry here.column rest
  else if c = '?' && (s.inFlow || spaced) then s.keyMark here.column rest
  else if c = ':' && (s.inFlow || spaced) then s.valueMark here.column rest
  else if c = '*' then
    let (name, rest) ← anchorName rest
    s.content here (.alias name) rest
  else if c = '&' then
    let (name, rest) ← anchorName rest
    s.content here (.anchor name) rest
  else if c = '!' then
    let (t, rest) ← tagToken s.inFlow s.rest
    s.content here t rest
  else if c = '|' && !s.inFlow then s.blockScalar true rest
  else if c = '>' && !s.inFlow then s.blockScalar false rest
  else if c = '\'' then
    let (text, rest) ← singleQuoted {} rest
    s.content here (.scalar .singleQuoted text) rest
  else if c = '"' then
    let (text, rest) ← doubleQuoted {} 0 0 rest
    s.content here (.scalar .doubleQuoted text) rest
  else if !isSpacing c && (!isIndicator c || (c = '-' && !((charAt? rest 0).map isBlank).getD false) ||
      (!s.inFlow && (c = '?' || c = ':') && !spaced)) then s.plainScalar here
  else none

/-- Cuts the rest of the stream.  Every token takes at least one symbol, so as many steps as there
are symbols are enough. -/
def run : Nat → Scanner → Option (List Token)
  | steps, s =>
    let s := s.advance
    match s.rest, steps with
    | [], _ => do return (← (s.unroll none).dropKey).cut.reverse
    | _ :: _, 0 => none
    | here :: rest, steps + 1 => do
      let s ← s.lapseKeys here
      run steps (← (s.unroll (some here.column)).token here rest)

end Scanner

/-- The tokens of a text. -/
def tokens? (text : String) : Option (List Token) := do
  let ss ← symbols? text
  Scanner.run ss.length { rest := ss }

end TypeQuery.Yaml
