import TypeQuery.Scope

/-!
# Bindings

What a walk over a program finds out about its names.  While the walk goes on, the open scopes say
which declaration a name means; what stays afterwards are three tables:

* `references`: the declaration that a name node was found to mean,
* `globals`: all declarations of each global name, in the order in which they were met,
* `targets`: the declaration that an assignment to a node makes.

A name node without a reference stands for the global of its name.
-/

namespace TypeQuery

/-- The names of a program: the open scopes of a walk over it, innermost first, and the tables that
the walk fills. -/
structure Bindings where
  current : Scope
  enclosing : List Scope
  references : Catalog NodeId Declaration
  globals : Catalog String (List Declaration)
  targets : Catalog NodeId Declaration

namespace Bindings

/-- Nothing is declared yet, and only the outermost scope is open. -/
def empty : Bindings := ⟨∅, [], ∅, ∅, ∅⟩

instance : EmptyCollection Bindings := ⟨empty⟩

/-! ## The open scopes -/

/-- The open scopes, innermost first. -/
def scopes (b : Bindings) : List Scope := b.current :: b.enclosing

/-- The number of scopes around the current one. -/
def depth (b : Bindings) : Nat := b.enclosing.length

/-- Opens a scope. -/
def enter (b : Bindings) : Bindings :=
  { b with current := ∅, enclosing := b.scopes }

/-- Closes the current scope.  The outermost scope stays open. -/
def exit (b : Bindings) : Bindings :=
  match b.enclosing with
  | [] => b
  | s :: rest => { b with current := s, enclosing := rest }

/-- Declares a name in the current scope; the first part of the result is what it hides there. -/
def declare (b : Bindings) (d : Declaration) : Option Declaration × Bindings :=
  let (hidden, s) := b.current.declare d
  (hidden, { b with current := s })

/-- The declaration that `name` means here: the one in the innermost scope that has one. -/
def lookup (b : Bindings) (name : String) : Option Declaration :=
  b.scopes.findSome? (Scope.lookup · name)

/-- The declaration of `name` in the current scope itself. -/
def lookupLocal (b : Bindings) (name : String) : Option Declaration := b.current.lookup name

/-- Every name that can be used here with the declaration that it means: inner scopes are laid over
outer ones. -/
def visible (b : Bindings) : Catalog String Declaration :=
  b.scopes.reverse.foldl (fun seen s => s.entries.foldl (fun c (n, d) => c.insert n d) seen) ∅

/-- The visible names and what they mean, in the order of the names. -/
def visibleByName (b : Bindings) : List (String × Declaration) :=
  b.visible.entries.mergeSort fun x y => (compare x.1 y.1).isLE

/-! ## The tables -/

/-- Records what a name node means, if it is a name and the name is declared here. -/
def bind (b : Bindings) (e : Expr) : Bool × Bindings :=
  match e.name?.bind b.lookup with
  | some d => (true, { b with references := b.references.insert e.id d })
  | none => (false, b)

/-- Adds a declaration to those of its global name. -/
def declareGlobal (b : Bindings) (d : Declaration) : Bindings :=
  let earlier := (b.globals.find? d.name).getD []
  { b with globals := b.globals.insert d.name (earlier ++ [{ d with kind := .globalName }]) }

/-- All declarations of a global name. -/
def globalsOf (b : Bindings) (name : String) : List Declaration := (b.globals.find? name).getD []

/-- Records the declaration that an assignment to the node of `e` makes. -/
def setTarget (b : Bindings) (e : Expr) (d : Declaration) : Bindings :=
  { b with targets := b.targets.insert e.id d }

/-! ## Asking about a node -/

/-- The declarations that a node may mean: its reference, or else those of its global name. -/
def candidates (b : Bindings) (e : Expr) : List Declaration :=
  match b.references.find? e.id with
  | some d => [d]
  | none => (e.name?.map b.globalsOf).getD []

/-- The node is a name that no declaration in scope accounts for. -/
def isGlobal (b : Bindings) (e : Expr) : Bool :=
  e.name?.isSome && !b.references.contains e.id

/-- The declaration that an assignment to the node makes. -/
def target? (b : Bindings) (e : Expr) : Option Declaration := b.targets.find? e.id

/-- The function body that a callee means: if it is a name, the first body that one of its
declarations gives. -/
def functionBody? (b : Bindings) (callee : Expr) : Option FunctionBody :=
  if callee.name?.isSome then (b.candidates callee).findSome? Declaration.functionBody? else none

end Bindings

end TypeQuery
