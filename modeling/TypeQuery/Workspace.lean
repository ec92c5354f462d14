import TypeQuery.Query

/-!
# Workspaces

A workspace is the client's side of inference: it numbers the nodes of each file as they are made,
keeps the bindings, annotations, members and modules up to date while a program is walked over, and
asks queries against the program as it stands.  Every query adds its work to the tally.

The operations are state actions on a workspace, in the order in which a walk performs them.
-/

namespace TypeQuery

/-- A program under construction, and the counts of the queries asked about it. -/
structure Workspace where
  bindings : Bindings := ∅
  annotations : Annotations := ∅
  members : Members := ∅
  modules : Modules
  options : Options := {}
  constructors : ConstructorRule := .listed
  tally : Tally := ∅
  /-- The current file. -/
  file : FileId := 0
  /-- The number of nodes made so far in each file. -/
  made : Catalog FileId Nat := ∅

namespace Workspace

/-- The program as it stands. -/
def program (w : Workspace) : Program where
  names := .bound w.bindings
  annotations := w.annotations
  members := w.members
  modules := w.modules
  options := w.options
  constructors := w.constructors

/-! ## Nodes -/

/-- The id of the next node of the current file. -/
def fresh : StateM Workspace NodeId := modifyGet fun w =>
  let n := (w.made.find? w.file).getD 0
  (⟨w.file, n⟩, { w with made := w.made.insert w.file (n + 1) })

/-- Makes an expression with the next id. -/
def node (make : NodeId → Expr) : StateM Workspace Expr := return make (← fresh)

/-- Wraps an expression `n` times. -/
def wrap (layer : Expr → StateM Workspace Expr) : Nat → Expr → StateM Workspace Expr
  | 0, e => pure e
  | n + 1, e => do wrap layer n (← layer e)

/-! ## Names -/

/-- Changes the bindings. -/
def onBindings {α : Type} (f : Bindings → α × Bindings) : StateM Workspace α := modifyGet fun w =>
  let (a, b) := f w.bindings
  (a, { w with bindings := b })

/-- Opens a scope. -/
def enter : StateM Workspace Unit := onBindings fun b => ((), b.enter)

/-- Closes the current scope. -/
def exit : StateM Workspace Unit := onBindings fun b => ((), b.exit)

/-- Declares a name; the result is the declaration that it hides. -/
def declare (d : Declaration) : StateM Workspace (Option Declaration) := onBindings (·.declare d)

/-- Binds a name node to what its name means here; the result says whether it means anything. -/
def bind (e : Expr) : StateM Workspace Bool := onBindings (·.bind e)

/-- Adds a declaration of a global. -/
def declareGlobal (d : Declaration) : StateM Workspace Unit :=
  onBindings fun b => ((), b.declareGlobal d)

/-- Records what an assignment to `e` declares. -/
def setTarget (e : Expr) (d : Declaration) : StateM Workspace Unit :=
  onBindings fun b => ((), b.setTarget e d)

/-- Declares local variables for a list of values.  The result pairs each declaration with the one
that it hides. -/
def declareLocals (names : List String) (values : List Expr) :
    StateM Workspace (List (Declaration × Option Declaration)) :=
  names.zipIdx.mapM fun (name, i) => do
    let d := { Declaration.localName (← fresh) name with value := some ⟨values, i⟩ }
    return (d, ← declare d)

/-! ## Function bodies -/

/-- Starts a function body: numbers its parameters and declares them in a new scope. -/
def openBody (names : List String) : StateM Workspace (List Formal) := do
  let params ← names.mapM fun name => return (⟨← fresh, name⟩ : Formal)
  enter
  params.forM fun q => do let _ ← declare (.parameter q)
  return params

/-- Ends a function body: closes its scope and numbers it. -/
def closeBody (params : List Formal) (returns : List (List Expr)) :
    StateM Workspace FunctionBody := do
  exit
  return ⟨← fresh, params, returns⟩

/-! ## Annotations, members and modules -/

/-- Annotates a node; the result is the annotation that was there. -/
def annotate (site : NodeId) (t : Ty) : StateM Workspace (Option Ty) := modifyGet fun w =>
  (w.annotations.find? site, { w with annotations := w.annotations.insert site t })

/-- Removes the annotation of a node; the result is the annotation that was there. -/
def unannotate (site : NodeId) : StateM Workspace (Option Ty) := modifyGet fun w =>
  (w.annotations.find? site, { w with annotations := w.annotations.erase site })

/-- Adds a declaration to a class. -/
def addMember (c : ClassTy) (d : Declaration) : StateM Workspace Unit :=
  modify fun w => { w with members := w.members.add c d }

/-- Adds the fields of a table constructor to its class; the result is their number. -/
def addTable (e : Expr) : StateM Workspace Nat := modifyGet fun w =>
  let (n, m) := w.members.addTable e
  (n, { w with members := m })

/-- Indexes a module. -/
def register (m : Module) : StateM Workspace Unit :=
  modify fun w => { w with modules.registry := w.modules.registry.register m }

/-! ## Queries -/

/-- Adds the work of a query to the tally. -/
def charge {α : Type} (query : Workspace → α × Tally) : StateM Workspace (α × Tally) :=
  modifyGet fun w =>
    let (a, work) := query w
    ((a, work), { w with tally := w.tally + work })

/-- Starts the counts anew. -/
def reset : StateM Workspace Unit := modify fun w => { w with tally := ∅ }

/-- The type of an expression, and the work of finding it. -/
def typeOf (e : Expr) : StateM Workspace (Ty × Tally) := charge fun w => w.program.typeOf e

/-- The type of an expression in a query that may be cancelled. -/
def typeOfCancellable (patience : Option Nat) (cancelOn : Option String) (e : Expr) :
    StateM Workspace (Ty × Tally) :=
  charge fun w => w.program.typeOfCancellable cancelOn patience e

/-- The type of an expression if names lead nowhere and every callee means `body`. -/
def typeOfWithBody (body : FunctionBody) (e : Expr) : StateM Workspace (Ty × Tally) :=
  charge fun w => { w.program with names := .bodyOnly body }.typeOf e

/-- Handles the assignment `object.field = value`: the node `target` is the left-hand side, and the
declaration that it makes is added to every class of the object.  The result is the declaration and
those classes. -/
def assignField (object value target : Expr) (field : String) :
    StateM Workspace (Declaration × List ClassTy) := do
  let d := Declaration.field target.id field value
  setTarget target d
  let (t, _) ← typeOf object
  t.classes.forM (addMember · d)
  return (d, t.classes)

/-- Carries out a plan as a part of an open query, and adds its work to the tally. -/
def perform (q : Query) (cancelOn : Option String) (plan : Program → Plan) :
    StateM Workspace ((Ty × Query) × Tally) :=
  charge fun w =>
    let idle := { q with progress.work := ∅ }
    let (t, q) := idle.perform w.program cancelOn (plan w.program)
    ((t, q), q.progress.work)

end Workspace

end TypeQuery
