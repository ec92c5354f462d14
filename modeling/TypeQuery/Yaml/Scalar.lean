/-!
# What a plain text stands for

A plain text can be more than a text: a word for nothing or for a truth value, an integer in one of
four bases, or a number with a point or an exponent.  Whole numbers are read only where one is
wanted; a text that is to be read back as a text has to be quoted if it could be taken for one of
these.
-/

namespace TypeQuery.Yaml.Scalar

/-- The value of a digit in a base up to sixteen. -/
def digit? (base : Nat) (c : Char) : Option Nat :=
  let n :=
    if c.isDigit then some (c.toNat - '0'.toNat)
    else if 'a' ≤ c ∧ c ≤ 'f' then some (c.toNat - 'a'.toNat + 10)
    else if 'A' ≤ c ∧ c ≤ 'F' then some (c.toNat - 'A'.toNat + 10)
    else none
  n.filter (· < base)

/-- The number that digits in a base stand for; there has to be one at least. -/
def natOfDigits? (base : Nat) (cs : List Char) : Option Nat :=
  if cs.isEmpty then none
  else cs.foldl (fun acc c => acc.bind fun n => (digit? base c).map (base * n + ·)) (some 0)

/-- A text without the given start. -/
def behind? (start : String) (cs : List Char) : Option (List Char) :=
  if start.toList.isPrefixOf cs then some (cs.drop start.length) else none

/-- The bases that are marked in front of the digits. -/
def markedBases : List (String × Nat) := [("0x", 16), ("0o", 8), ("0b", 2)]

/-- Digits behind the mark of their base. -/
def marked? (cs : List Char) : Option Nat :=
  markedBases.findSome? fun (mark, base) => (behind? mark cs).bind (natOfDigits? base)

/-- A text without one sign in front. -/
def unsigned (cs : List Char) : List Char :=
  match cs with
  | '-' :: rest | '+' :: rest => rest
  | _ => cs

/-- Several digits that start with a zero.  They are no number. -/
def isPadded (cs : List Char) : Bool :=
  match unsigned cs with
  | '0' :: c :: rest => (c :: rest).all Char.isDigit
  | _ => false

/-- The integer that is not negative and below `bound` that a text stands for. -/
def natBelow? (bound : Nat) (text : String) : Option Nat :=
  let cs := text.toList
  let digits := (behind? "+" cs).getD cs
  let inBound := fun (n : Option Nat) => n.filter (· < bound)
  inBound (marked? digits) <|>
    if isPadded cs then none else inBound (natOfDigits? 10 digits)

/-- The text stands for a negative integer above a bound, or for the zero with a minus sign. -/
def isNegative (bound : Nat) (text : String) : Bool :=
  match behind? "-" text.toList with
  | none => false
  | some cs =>
    let n := marked? cs <|> if isPadded cs then none else natOfDigits? 10 cs
    (n.filter (· ≤ bound)).isSome

/-- A decimal number that fits into the range of binary64.  `whole` and `places` are its digits in
front of and behind the point, and `exponent` is the power of ten. -/
def isFinite (whole places : List Char) (exponent : Int) : Bool :=
  let significant := (whole ++ places).dropWhile (· = '0')
  let power := exponent - places.length
  if significant.isEmpty then true
  else if significant.length + power < 300 then true
  else if 400 < significant.length + power then false
  else
    let n := (natOfDigits? 10 significant).getD 0
    n * Nat.pow 10 power.toNat < (Nat.pow 2 1024 - Nat.pow 2 970) * Nat.pow 10 (-power).toNat

/-- The exponent part of a number, which may be left out. -/
def exponent? (cs : List Char) : Option Int :=
  match cs with
  | [] => some 0
  | e :: rest =>
    if e = 'e' ∨ e = 'E' then
      (natOfDigits? 10 (unsigned rest)).map fun n => if rest.head? = some '-' then -n else n
    else none

/-- The text stands for a number with a point or an exponent. -/
def isDecimal (text : String) : Bool :=
  let cs := text.toList
  let positive := (behind? "+" cs).getD cs
  let special :=
    [".inf", ".Inf", ".INF"].contains (String.ofList positive) ||
      ["-.inf", "-.Inf", "-.INF", ".nan", ".NaN", ".NAN"].contains text
  let doubleSigned := positive.length < cs.length && positive.length ≠ (unsigned positive).length
  let body := unsigned positive
  let (whole, rest) := body.span Char.isDigit
  let (places, rest) := match rest with
    | '.' :: rest => rest.span Char.isDigit
    | _ => ([], rest)
  special ||
    (!doubleSigned && !(whole ++ places).isEmpty &&
      ((exponent? rest).map (isFinite whole places)).getD false)

/-- Words that stand for nothing or for a truth value. -/
def words : List String :=
  ["null", "Null", "NULL", "~", "true", "True", "TRUE", "false", "False", "FALSE"]

/-- The text could be taken for something other than a text. -/
def isAmbiguous (text : String) : Bool :=
  text = "" || words.contains text || isPadded text.toList ||
    (natBelow? (Nat.pow 2 128) text).isSome || isNegative (Nat.pow 2 127) text || isDecimal text

end TypeQuery.Yaml.Scalar
