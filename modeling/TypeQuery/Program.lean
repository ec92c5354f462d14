import TypeQuery.Bindings
import TypeQuery.Members
import TypeQuery.Module.Search
import TypeQuery.Options

/-!
# Programs

Everything that a query may look at: where names lead, which nodes are annotated, what members
classes have, which modules there are, and the options in force.
-/

namespace TypeQuery

/-- The types that annotations give to nodes. -/
abbrev Annotations := Catalog NodeId Ty

/-- Where names lead. -/
inductive Names where
  /-- As a walk over the program has bound them. -/
  | bound (bindings : Bindings)
  /-- Names lead nowhere, and every callee means the same function body. -/
  | bodyOnly (body : FunctionBody)

namespace Names

/-- The declarations that a node may mean. -/
def candidates : Names → Expr → List Declaration
  | .bound b, e => b.candidates e
  | .bodyOnly _, _ => []

/-- The node is a name that stands for a global. -/
def isGlobal : Names → Expr → Bool
  | .bound b, e => b.isGlobal e
  | .bodyOnly _, _ => false

/-- The declaration that an assignment to the node makes. -/
def target? : Names → Expr → Option Declaration
  | .bound b, e => b.target? e
  | .bodyOnly _, _ => none

end Names

/-- Which field names mean "make an instance" when they are called. -/
inductive ConstructorRule where
  /-- Those that the options list. -/
  | listed
  /-- Those that start with `initial`. -/
  | startingWith (initial : String)

/-- What a query looks at. -/
structure Program where
  names : Names
  annotations : Annotations
  members : Members
  modules : Modules
  options : Options
  constructors : ConstructorRule

/-- Calling the field of this name makes an instance of the object that holds it. -/
def Program.isConstructor (p : Program) (name : String) : Bool :=
  match p.constructors with
  | .listed => p.options.isConstructor name
  | .startingWith initial => initial.toList.isPrefixOf name.toList

end TypeQuery
