/-!
# Operators

The unary and binary operators of Lua, as far as inference tells them apart: a concatenation is a
string, a comparison is a boolean, arithmetic has the type of its left operand.
-/

namespace TypeQuery

/-- A unary operator. -/
inductive UnaryOp where
  | minus
  | length
  | not
  | bitNot
deriving DecidableEq, Repr

/-- A binary operator. -/
inductive BinaryOp where
  | concat
  | equal
  | notEqual
  | less
  | lessEqual
  | greater
  | greaterEqual
  | and
  | or
  | add
  | subtract
  | multiply
  | divide
  | floorDivide
  | modulo
  | power
  | bitAnd
  | bitOr
  | bitXor
  | shiftLeft
  | shiftRight
deriving DecidableEq, Repr

/-- How a unary operator is written. -/
def UnaryOp.text : UnaryOp → String
  | .minus => "-"
  | .length => "#"
  | .not => "not"
  | .bitNot => "~"

namespace UnaryOp

/-- All unary operators. -/
def all : List UnaryOp := [.minus, .length, .not, .bitNot]

/-- The unary operator that is written so. -/
def ofText? (s : String) : Option UnaryOp := all.find? (·.text = s)

end UnaryOp

namespace BinaryOp

/-- How a binary operator is written. -/
def text : BinaryOp → String
  | .concat => ".."
  | .equal => "=="
  | .notEqual => "~="
  | .less => "<"
  | .lessEqual => "<="
  | .greater => ">"
  | .greaterEqual => ">="
  | .and => "and"
  | .or => "or"
  | .add => "+"
  | .subtract => "-"
  | .multiply => "*"
  | .divide => "/"
  | .floorDivide => "//"
  | .modulo => "%"
  | .power => "^"
  | .bitAnd => "&"
  | .bitOr => "|"
  | .bitXor => "~"
  | .shiftLeft => "<<"
  | .shiftRight => ">>"

/-- The operator compares its operands. -/
def isComparison : BinaryOp → Bool
  | .equal | .notEqual | .less | .lessEqual | .greater | .greaterEqual => true
  | _ => false

/-- The operator computes a number, on whole words of bits included. -/
def isArithmetic : BinaryOp → Bool
  | .add | .subtract | .multiply | .divide | .floorDivide | .modulo | .power
  | .bitAnd | .bitOr | .bitXor | .shiftLeft | .shiftRight => true
  | _ => false

/-- All binary operators. -/
def all : List BinaryOp :=
  [.concat, .equal, .notEqual, .less, .lessEqual, .greater, .greaterEqual, .and, .or, .add,
    .subtract, .multiply, .divide, .floorDivide, .modulo, .power, .bitAnd, .bitOr, .bitXor,
    .shiftLeft, .shiftRight]

/-- The binary operator that is written so. -/
def ofText? (s : String) : Option BinaryOp := all.find? (·.text = s)

end BinaryOp

end TypeQuery
