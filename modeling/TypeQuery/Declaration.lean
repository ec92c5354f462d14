import TypeQuery.Expr.Basic

/-!
# Declarations

A declaration introduces a name: a local variable, a parameter, a global, a field of a class, or a
function.  It says where the type of the name can be found: in a function body, in one position of a
list of assigned values, or among the members of a module.
-/

namespace TypeQuery

/-- What a declaration introduces. -/
inductive DeclarationKind where
  | localName
  | parameter
  | globalName
  | field
  | function
deriving DecidableEq, Repr, Inhabited

/-- A list of values that was assigned at once, and the position that belongs to one name. -/
structure Assigned where
  values : List Expr
  index : Nat

/-- The expression at the position of the name, if the list is that long. -/
def Assigned.at? (a : Assigned) : Option Expr := a.values[a.index]?

/-- A declaration.  `ofModule` names a module among whose members the name is looked up before
anything else. -/
structure Declaration where
  id : NodeId
  name : String
  kind : DeclarationKind
  span : Span := .none
  value : Option Assigned := none
  body : Option FunctionBody := none
  ofModule : Option String := none

namespace Declaration

/-- The declaration of a local variable. -/
def localName (id : NodeId) (name : String) : Declaration := { id, name, kind := .localName }

/-- The declaration of a parameter. -/
def parameter (p : Formal) : Declaration := { id := p.id, name := p.name, kind := .parameter }

/-- The declaration of a field, which holds a single value. -/
def field (id : NodeId) (name : String) (value : Expr) : Declaration :=
  { id, name, kind := .field, value := some ⟨[value], 0⟩ }

/-- The function body that the declaration gives its name: its own, or that of the closure
assigned to it. -/
def functionBody? (d : Declaration) : Option FunctionBody :=
  d.body <|> (d.value.bind Assigned.at?).bind Expr.body?

end Declaration

end TypeQuery
