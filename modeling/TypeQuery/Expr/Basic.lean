import TypeQuery.Node
import TypeQuery.Expr.Operator

/-!
# Expressions

The expressions of a program, each with the id of its node.  An expression holds its parts, so it
is a finite tree; what leads from one tree to another (a name to its declaration, a call to a
function body elsewhere) is in the side tables of the program and is looked up by id.

A literal keeps only what inference reads: the text of a string, and of every other literal its
kind.  The value and the right operand that some forms leave out are those of incomplete source,
which an editor sees all the time.
-/

namespace TypeQuery

/-- A literal.  `varargs` is the expression `...`. -/
inductive Literal where
  | nil
  | boolean
  | number
  | string (text : String)
  | varargs
deriving DecidableEq, Repr

/-- A parameter of a function body. -/
structure Formal where
  id : NodeId
  name : String
deriving DecidableEq, Repr

mutual

/-- An expression. -/
inductive Expr where
  | unary (id : NodeId) (op : UnaryOp) (operand : Expr)
  | binary (id : NodeId) (op : BinaryOp) (left : Expr) (right : Option Expr)
  | call (id : NodeId) (callee : Expr) (arguments : List Expr)
  | closure (id : NodeId) (body : FunctionBody)
  | table (id : NodeId) (fields : List TableField)
  | paren (id : NodeId) (inner : Option Expr)
  | name (id : NodeId) (name : String)
  | literal (id : NodeId) (value : Literal)
  | index (id : NodeId) (object : Expr) (key : IndexKey)

/-- What an index expression reads: `object.name`, or `object[key]`. -/
inductive IndexKey where
  | field (name : String)
  | bracket (key : Expr)

/-- A field of a table constructor: `name = value`, `[key] = value`, or a value alone. -/
inductive TableField where
  | named (id : NodeId) (name : String) (value : Expr)
  | keyed (id : NodeId) (key : Expr) (value : Expr)
  | positional (value : Expr)

/-- The body of a function: its parameters, and the value list of each of its `return`s. -/
structure FunctionBody where
  id : NodeId
  params : List Formal
  returns : List (List Expr)

end

namespace Expr

/-- The id of the node. -/
def id : Expr → NodeId
  | unary n .. | binary n .. | call n .. | closure n .. | table n .. | paren n .. | name n ..
  | literal n .. | index n .. => n

/-- Where the node stands.  Nodes are laid out one per position, in the order of their numbers. -/
def span (e : Expr) : Span := ⟨e.id.index, e.id.index + 1, 0, 0⟩

/-- The name, if the expression is one. -/
def name? : Expr → Option String
  | name _ n => some n
  | _ => none

/-- The text, if the expression is a string literal. -/
def string? : Expr → Option String
  | literal _ (.string s) => some s
  | _ => none

/-- The body, if the expression is a closure. -/
def body? : Expr → Option FunctionBody
  | closure _ b => some b
  | _ => none

/-- The expression is a call. -/
def isCall : Expr → Bool
  | call .. => true
  | _ => false

/-- At the end of a value list, the expression may stand for any number of values. -/
def isMultiValued : Expr → Bool
  | call .. | literal _ .varargs => true
  | _ => false

/-- The text of the first argument, if the expression is a call and that argument is a string
literal. -/
def firstString? : Expr → Option String
  | call _ _ (a :: _) => a.string?
  | _ => none

/-- Answering for the expression may lead back to it through the side tables of the program. -/
def isGuarded : Expr → Bool
  | name .. | call .. | index .. => true
  | _ => false

/-- The object and the key, if the expression is an index expression. -/
def index? : Expr → Option (Expr × IndexKey)
  | index _ object key => some (object, key)
  | _ => none

end Expr

namespace IndexKey

/-- The key is written in brackets. -/
def isBracket : IndexKey → Bool
  | bracket _ => true
  | field _ => false

/-- The name of the field that is read, if it is known: `o["x"]` reads the same field as `o.x`. -/
def name? : IndexKey → Option String
  | field n => some n
  | bracket k => k.string?

end IndexKey

end TypeQuery
